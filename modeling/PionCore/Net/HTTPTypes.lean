/-
# Strings and dictionaries of the HTTP library

The constants of `HTTPTypes` that the message and parser classes read, and
`StringDictionary`, the hashed multimap with case-insensitive keys that holds headers,
cookies and query parameters.  The entries of one name are kept in the order of
insertion, and `find` gives the first of them.
-/
import PionCore.Lib.Multimap

namespace PionCore.Net

open PionCore.Lib

/-! ### Constants -/

def stringCRLF : Bytes := [13, 10]
def stringHttpVersion : Bytes := ascii "HTTP/"
def headerNameValueDelimiter : Bytes := ascii ": "

def headerCookie : Bytes := ascii "Cookie"
def headerSetCookie : Bytes := ascii "Set-Cookie"
def headerConnection : Bytes := ascii "Connection"
def headerContentType : Bytes := ascii "Content-Type"
def headerContentLength : Bytes := ascii "Content-Length"
def headerTransferEncoding : Bytes := ascii "Transfer-Encoding"

def contentTypeUrlencoded : Bytes := ascii "application/x-www-form-urlencoded"

def requestMethodHead : Bytes := ascii "HEAD"
def requestMethodGet : Bytes := ascii "GET"
def requestMethodPost : Bytes := ascii "POST"

def responseMessageOk : Bytes := ascii "OK"
def responseCodeOk : ℕ := 200

/-! ### Dictionaries -/

/-- `StringDictionary`: the keys are compared by `CaseInsensitiveEqual`. -/
abbrev StringDictionary : Type := Multimap Bytes Bytes

/-- The order in which an iteration over a dictionary meets its entries; it is that of
the hash table. -/
abbrev HashOrder : Type := Iteration Bytes Bytes equalIgnoreCase

namespace StringDictionary

/-- The first entry of a key, if there is one. -/
def find (d : StringDictionary) (k : Bytes) : Option (Bytes × Bytes) :=
  Multimap.find equalIgnoreCase k d

/-- The entries of a key. -/
def equalRange (d : StringDictionary) (k : Bytes) : List (Bytes × Bytes) :=
  Multimap.equalRange equalIgnoreCase k d

def insert (d : StringDictionary) (k v : Bytes) : StringDictionary := Multimap.insert d k v

/-- `HTTPMessage::getValue`: the first value of a key, or an empty string. -/
def getValue (d : StringDictionary) (k : Bytes) : Bytes := ((d.find k).map Prod.snd).getD []

/-- `HTTPMessage::changeValue`: give the first entry of a key a new value and remove the
other ones; if there is none, add one. -/
def changeValue (d : StringDictionary) (k v : Bytes) : StringDictionary :=
  match d.find k with
  | none => d.insert k v
  | some _ => Multimap.assign equalIgnoreCase k v d

/-- `HTTPMessage::deleteValue`. -/
def deleteValue (d : StringDictionary) (k : Bytes) : StringDictionary :=
  Multimap.erase equalIgnoreCase k d

/-- Two dictionaries with the same entries for each key, in the same order. -/
def Same (d d' : StringDictionary) : Prop := ∀ k, d.equalRange k = d'.equalRange k

lemma find_eq_head (d : StringDictionary) (k : Bytes) : d.find k = (d.equalRange k).head? :=
  Multimap.find_eq_head equalIgnoreCase k d

lemma mem_equalRange {d : StringDictionary} {k : Bytes} {e : Bytes × Bytes} :
    e ∈ d.equalRange k ↔ e ∈ d ∧ equalIgnoreCase e.1 k = true :=
  Multimap.mem_equalRange equalIgnoreCase

lemma mem_of_find {d : StringDictionary} {k : Bytes} {e : Bytes × Bytes}
    (h : d.find k = some e) : e ∈ d ∧ equalIgnoreCase e.1 k = true :=
  Multimap.mem_of_find equalIgnoreCase h

@[simp] lemma equalRange_nil (k : Bytes) : equalRange [] k = [] := rfl

lemma equalRange_insert (d : StringDictionary) (k v j : Bytes) :
    (d.insert k v).equalRange j =
      d.equalRange j ++ if equalIgnoreCase k j then [(k, v)] else [] := by
  rw [insert, Multimap.insert, equalRange, Multimap.equalRange_append]
  cases h : equalIgnoreCase k j <;> simp [Multimap.equalRange, equalRange, h]

/-- Changing the value of a key leaves the entries of the other keys alone. -/
lemma equalRange_changeValue_of_ne {j k : Bytes} (h : equalIgnoreCase j k = false)
    (d : StringDictionary) (v : Bytes) : (d.changeValue k v).equalRange j = d.equalRange j := by
  rw [changeValue]
  split
  · rw [equalRange_insert, equalIgnoreCase_comm k j, h]
    simp
  · exact Multimap.equalRange_assign equalIgnoreCase (fun _ _ hab => equalIgnoreCase_congr hab)
      equalIgnoreCase_comm h v d

/-- After a change the key has exactly one entry, with the new value. -/
lemma equalRange_changeValue (d : StringDictionary) (k v : Bytes) :
    ∃ k', equalIgnoreCase k' k = true ∧ (d.changeValue k v).equalRange k = [(k', v)] := by
  rw [changeValue]
  split
  · rename_i h
    refine ⟨k, equalIgnoreCase_self k, ?_⟩
    have hnil : d.equalRange k = [] := by
      rw [find_eq_head] at h
      exact List.head?_eq_none_iff.1 h
    simp [equalRange_insert, hnil]
  · rename_i e h
    exact ⟨e.1, (mem_of_find h).2, Multimap.equalRange_assign_self equalIgnoreCase h v⟩

/-- An entry of a changed dictionary was there before, or it has the new value and a key
equivalent to the changed one. -/
lemma mem_changeValue {d : StringDictionary} {k v : Bytes} {e : Bytes × Bytes}
    (h : e ∈ d.changeValue k v) : e ∈ d ∨ e.2 = v ∧ (e.1 = k ∨ ∃ f ∈ d, f.1 = e.1) := by
  rw [changeValue] at h
  split at h
  · simp only [insert, Multimap.insert, List.mem_append, List.mem_singleton] at h
    rcases h with h | rfl
    · exact Or.inl h
    · exact Or.inr ⟨rfl, Or.inl rfl⟩
  · rcases Multimap.mem_assign equalIgnoreCase h with h | ⟨hv, hf⟩
    · exact Or.inl h
    · exact Or.inr ⟨hv, Or.inr hf⟩

end StringDictionary

end PionCore.Net
