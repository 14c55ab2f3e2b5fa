/-
# Terms of a vocabulary

A vocabulary keeps its terms in a table, in which a term's reference is its position, and finds
them by their identifiers.  Both structures point to the same term objects, so that the entry of
an identifier is a position of the table.  A reference that has been given away stays valid: a
term that is removed, or gets another type, only loses the entry of its identifier.
-/
import PionCore.Lib.Ascii

namespace PionCore.Platform

open PionCore.Lib

/-- `Vocabulary::DataType`. -/
inductive DataType where
  | null | int8 | uint8 | int16 | uint16 | int32 | uint32 | int64 | uint64
  | float | double | longDouble
  | shortString | string | longString
  | dateTime | date | time
  | char | blob | zblob
  | object
deriving DecidableEq

/-- `Vocabulary::Term`; the undefined reference is zero. -/
structure Term where
  termId : Bytes := []
  termRef : ℕ := 0
  termComment : Bytes := []
  termType : DataType := .null
  termSize : ℕ := 0
  termFormat : Bytes := []
deriving DecidableEq

/-- The exceptions of a vocabulary. -/
inductive VocabularyError where
  | emptyTermId
  | duplicateTerm (termId : Bytes)
  | termNotFound (termId : Bytes)
  | termNoLongerDefined (termId : Bytes)
deriving DecidableEq

/-- `Vocabulary`; an entry of `m_uri_map` is the position of its term object in `m_ref_map`. -/
structure Vocabulary where
  refMap : List Term := [{}]
  uriMap : List (Bytes × ℕ) := []
  numTerms : ℕ := 0
deriving DecidableEq

namespace Vocabulary

/-- `m_uri_map.find`. -/
def findUri (v : Vocabulary) (termId : Bytes) : Option (Bytes × ℕ) :=
  v.uriMap.find? fun e => e.1 == termId

/-- `operator[]`. -/
def get (v : Vocabulary) (termRef : ℕ) : Term := v.refMap[termRef]?.getD {}

/-- `findTerm`: the reference of a term, which is zero if the term is not defined. -/
def findTerm (v : Vocabulary) (termId : Bytes) : ℕ :=
  match v.findUri termId with
  | some e => (v.get e.2).termRef
  | none => 0

/-- The size of a new term; a `char` has at least one. -/
def sizeOf (t : Term) : ℕ := if t.termType = .char ∧ t.termSize = 0 then 1 else t.termSize

/-- `addTerm`. -/
def addTerm (v : Vocabulary) (t : Term) : Except VocabularyError Vocabulary :=
  if t.termId = [] then .error .emptyTermId
  else if (v.findUri t.termId).isSome then .error (.duplicateTerm t.termId)
  else .ok
    { refMap := v.refMap ++ [{ t with termRef := v.numTerms + 1, termSize := sizeOf t }]
      uriMap := (t.termId, v.refMap.length) :: v.uriMap
      numTerms := v.numTerms + 1 }

/-- `m_uri_map.erase`. -/
def eraseUri (v : Vocabulary) (termId : Bytes) : Vocabulary :=
  { v with uriMap := v.uriMap.filter fun e => e.1 != termId }

/-- `removeTerm`: the vocabulary behind the call, and the exception that it throws. -/
def removeTerm (v : Vocabulary) (termId : Bytes) : Vocabulary × Option VocabularyError :=
  match v.findUri termId with
  | none => (v, some (.termNotFound termId))
  | some e =>
    if termId = [] then (v, some (.termNotFound termId))
    else
      let removed := { v with refMap := v.refMap.modify e.2 fun t => { t with termRef := 0 } }
      (removed.eraseUri termId, none)

/-- `updateTerm`.  A term that gets another type becomes a new object. -/
def updateTerm (v : Vocabulary) (t : Term) : Vocabulary × Option VocabularyError :=
  match v.findUri t.termId with
  | none => (v, some (.termNotFound t.termId))
  | some e =>
    if t.termId = [] then (v, some (.termNotFound t.termId))
    else if (v.get e.2).termType = t.termType then
      let update (u : Term) : Term :=
        { u with termComment := t.termComment, termSize := t.termSize, termFormat := t.termFormat }
      ({ v with refMap := v.refMap.modify e.2 update }, none)
    else
      match (v.eraseUri t.termId).addTerm t with
      | .ok added => (added, none)
      | .error exception => (v.eraseUri t.termId, some exception)

/-- `refreshTerm`. -/
def refreshTerm (v : Vocabulary) (t : Term) : Except VocabularyError Term :=
  if v.findTerm t.termId = 0 then .error (.termNoLongerDefined t.termId)
  else .ok (v.get (v.findTerm t.termId))

/-- A call that changes a vocabulary. -/
inductive Edit where
  | addTerm (t : Term)
  | removeTerm (termId : Bytes)
  | updateTerm (t : Term)
deriving DecidableEq

/-- The vocabulary behind a call, which may throw. -/
def edit (v : Vocabulary) : Edit → Vocabulary
  | .addTerm t => (v.addTerm t).toOption.getD v
  | .removeTerm termId => (v.removeTerm termId).1
  | .updateTerm t => (v.updateTerm t).1

/-- The vocabulary that a sequence of calls makes. -/
def make (edits : List Edit) : Vocabulary := edits.foldl edit {}

/-! ### What holds of every vocabulary -/

/-- The entry of an identifier points to a term of the table with this identifier, and with its
position as its reference. -/
structure Sound (v : Vocabulary) : Prop where
  length : v.refMap.length = v.numTerms + 1
  entry : ∀ e ∈ v.uriMap,
    e.2 ≠ 0 ∧ ∃ t, v.refMap[e.2]? = some t ∧ t.termId = e.1 ∧ t.termRef = e.2

variable {v : Vocabulary}

lemma mem_of_findUri {termId : Bytes} {e : Bytes × ℕ} (h : v.findUri termId = some e) :
    e ∈ v.uriMap ∧ e.1 = termId := by
  have hkey := List.find?_some h
  exact ⟨List.mem_of_find?_eq_some h, by simpa using hkey⟩

lemma Sound.start : Sound {} where
  length := Nat.zero_add 1
  entry := by simp

lemma Sound.eraseUri (h : Sound v) (termId : Bytes) : Sound (v.eraseUri termId) where
  length := h.length
  entry := fun e he => h.entry e (List.mem_of_mem_filter he)

lemma Sound.addTerm (h : Sound v) {t : Term} {w : Vocabulary} (hadd : v.addTerm t = .ok w) :
    Sound w := by
  rw [Vocabulary.addTerm] at hadd
  split_ifs at hadd with hid hdup
  obtain rfl := Except.ok.inj hadd
  constructor
  · simp [h.length]
  · intro e he
    rcases List.mem_cons.1 he with rfl | he
    · -- the new object stands behind the table, and its reference is the number of the terms
      refine ⟨by simp [h.length], _, List.getElem?_concat_length, rfl, ?_⟩
      exact h.length.symm
    · obtain ⟨hne, u, hu, hrest⟩ := h.entry e he
      have hlt : e.2 < v.refMap.length := (List.getElem?_eq_some_iff.1 hu).1
      exact ⟨hne, u, by rw [List.getElem?_append_left hlt, hu], hrest⟩

lemma Sound.modify (h : Sound v) {i : ℕ} {f : Term → Term}
    (hf : ∀ t, (f t).termId = t.termId)
    (href : ∀ e ∈ v.uriMap, e.2 = i → ∀ t, (f t).termRef = t.termRef) :
    Sound { v with refMap := v.refMap.modify i f } where
  length := by simpa using h.length
  entry := by
    intro e he
    obtain ⟨hne, t, ht, hid, hpos⟩ := h.entry e he
    refine ⟨hne, ?_⟩
    rw [List.getElem?_modify, ht]
    by_cases hi : i = e.2
    · exact ⟨f t, by simp [hi], (hf t).trans hid, (href e he hi.symm t).trans hpos⟩
    · exact ⟨t, by simp [hi], hid, hpos⟩

lemma Sound.removeTerm (h : Sound v) (termId : Bytes) : Sound (v.removeTerm termId).1 := by
  rw [Vocabulary.removeTerm]
  cases hfind : v.findUri termId with
  | none => exact h
  | some e =>
    obtain ⟨hmem, rfl⟩ := mem_of_findUri hfind
    dsimp only
    split_ifs
    · exact h
    · -- no other entry points to the removed term, as it has one identifier only
      refine (h.eraseUri e.1).modify (fun _ => rfl) fun e' he' hpos t => ?_
      obtain ⟨hmem', hne⟩ := List.mem_filter.1 he'
      obtain ⟨-, u, hu, hid, -⟩ := h.entry e hmem
      obtain ⟨-, u', hu', hid', -⟩ := h.entry e' hmem'
      rw [hpos, hu] at hu'
      obtain rfl := Option.some.inj hu'
      exact absurd (hid'.symm.trans hid) (by simpa using hne)

lemma Sound.updateTerm (h : Sound v) (t : Term) : Sound (v.updateTerm t).1 := by
  rw [Vocabulary.updateTerm]
  cases hfind : v.findUri t.termId with
  | none => exact h
  | some e =>
    dsimp only
    split_ifs
    · exact h
    · exact h.modify (fun _ => rfl) fun _ _ _ _ => rfl
    · cases hadd : (v.eraseUri t.termId).addTerm t with
      | ok w => exact (h.eraseUri t.termId).addTerm hadd
      | error x => exact h.eraseUri t.termId

lemma Sound.edit (h : Sound v) (e : Edit) : Sound (v.edit e) := by
  cases e with
  | addTerm t =>
    rw [Vocabulary.edit]
    cases hadd : v.addTerm t with
    | ok w => exact h.addTerm hadd
    | error x => exact h
  | removeTerm termId => exact h.removeTerm termId
  | updateTerm t => exact h.updateTerm t

lemma Sound.foldl (h : Sound v) (edits : List Edit) : Sound (edits.foldl Vocabulary.edit v) := by
  induction edits generalizing v with
  | nil => exact h
  | cons e edits ih => exact ih (h.edit e)

lemma sound_make (edits : List Edit) : Sound (make edits) := Sound.start.foldl edits

/-- The term of a reference that is found has the identifier, and this reference. -/
lemma Sound.get_findTerm (h : Sound v) {termId : Bytes} (hne : v.findTerm termId ≠ 0) :
    (v.get (v.findTerm termId)).termId = termId ∧
      (v.get (v.findTerm termId)).termRef = v.findTerm termId := by
  cases hfind : v.findUri termId with
  | none => exact absurd (by rw [findTerm, hfind]) hne
  | some e =>
    obtain ⟨hmem, rfl⟩ := mem_of_findUri hfind
    obtain ⟨-, t, ht, hid, hpos⟩ := h.entry e hmem
    have hget : v.get e.2 = t := by rw [get, ht, Option.getD_some]
    have hterm : v.findTerm e.1 = e.2 := by
      rw [findTerm, hfind]
      exact (congrArg Term.termRef hget).trans hpos
    rw [hterm, hget]
    exact ⟨hid, hpos⟩

lemma Sound.termId_of_refreshTerm (h : Sound v) {t u : Term} (hu : v.refreshTerm t = .ok u) :
    v.findTerm t.termId ≠ 0 ∧ u = v.get (v.findTerm t.termId) ∧ u.termId = t.termId := by
  rw [refreshTerm] at hu
  split_ifs at hu with hne
  obtain rfl := Except.ok.inj hu
  exact ⟨hne, rfl, (h.get_findTerm hne).1⟩

end Vocabulary

end PionCore.Platform
