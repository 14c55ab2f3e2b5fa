/-
# Multimaps with equivalent keys

A hashed multimap whose keys are compared by an equivalence `eqv` is kept as the list of
its entries in the order of insertion.  Two multimaps are the same when each key has the
same entries in the same order; the order between different keys, which is that of the
hash table, is left open: an `Iteration` is any way to walk through the entries that
keeps those of one key in their order.
-/
import PionCore.Lib.Ascii

namespace PionCore.Lib

/-- The entries of a multimap, in the order of insertion. -/
abbrev Multimap (κ ν : Type*) : Type _ := List (κ × ν)

namespace Multimap

variable {κ ν : Type*} (eqv : κ → κ → Bool)

/-- The first entry of a key. -/
def find (k : κ) (d : Multimap κ ν) : Option (κ × ν) := List.find? (fun e => eqv e.1 k) d

/-- The entries of a key. -/
def equalRange (k : κ) (d : Multimap κ ν) : Multimap κ ν := d.filter fun e => eqv e.1 k

/-- Add an entry; it comes after the entries of its key that are there already. -/
def insert (d : Multimap κ ν) (k : κ) (v : ν) : Multimap κ ν := d ++ [(k, v)]

/-- Remove the entries of a key. -/
def erase (k : κ) (d : Multimap κ ν) : Multimap κ ν := d.filter fun e => ! eqv e.1 k

/-- Give the first entry of a key a new value and remove the other ones. -/
def assign (k : κ) (v : ν) : Multimap κ ν → Multimap κ ν
  | [] => []
  | e :: d => if eqv e.1 k then (e.1, v) :: erase eqv k d else e :: assign k v d

lemma find_eq_head (k : κ) (d : Multimap κ ν) : find eqv k d = (equalRange eqv k d).head? := by
  rw [find, equalRange, List.head?_filter]

lemma equalRange_append (k : κ) (d d' : Multimap κ ν) :
    equalRange eqv k (d ++ d') = equalRange eqv k d ++ equalRange eqv k d' :=
  List.filter_append _ _

lemma mem_equalRange {k : κ} {d : Multimap κ ν} {e : κ × ν} :
    e ∈ equalRange eqv k d ↔ e ∈ d ∧ eqv e.1 k = true := by
  simp [equalRange]

lemma mem_of_find {k : κ} {d : Multimap κ ν} {e : κ × ν} (h : find eqv k d = some e) :
    e ∈ d ∧ eqv e.1 k = true := by
  have h' : List.find? (fun e => eqv e.1 k) d = some e := h
  have hk := List.find?_some h'
  exact ⟨List.mem_of_find?_eq_some h', hk⟩

section Equivalence

variable (hcongr : ∀ a b, eqv a b = true → ∀ c, eqv a c = eqv b c)

include hcongr

/-- The keys equivalent to one of two inequivalent keys are not equivalent to the other. -/
lemma eqv_false {j k l : κ} (hjk : eqv j k = false) (hlj : eqv l j = true) :
    eqv l k = false := by
  rw [hcongr l j hlj k]
  exact hjk

lemma equalRange_erase {j k : κ} (hjk : eqv j k = false) (d : Multimap κ ν) :
    equalRange eqv j (erase eqv k d) = equalRange eqv j d := by
  rw [equalRange, erase, List.filter_filter]
  refine List.filter_congr fun e _ => ?_
  cases hej : eqv e.1 j with
  | false => simp
  | true => simp [eqv_false eqv hcongr hjk hej]

/-- The entries of the other keys are not touched by an assignment. -/
lemma equalRange_assign (hsymm : ∀ a b, eqv a b = eqv b a) {j k : κ} (hjk : eqv j k = false)
    (v : ν) (d : Multimap κ ν) :
    equalRange eqv j (assign eqv k v d) = equalRange eqv j d := by
  induction d with
  | nil => rfl
  | cons e d ih =>
    cases hek : eqv e.1 k with
    | false =>
      simp only [assign, hek, Bool.false_eq_true, if_false, equalRange, List.filter_cons] at ih ⊢
      rw [ih]
    | true =>
      have hej : eqv e.1 j = false := by
        refine eqv_false eqv hcongr ?_ hek
        rw [hsymm]
        exact hjk
      simp only [assign, hek, if_true, equalRange, List.filter_cons, hej, Bool.false_eq_true,
        if_false]
      exact equalRange_erase eqv hcongr hjk d

end Equivalence

lemma equalRange_erase_self (k : κ) (d : Multimap κ ν) :
    equalRange eqv k (erase eqv k d) = [] := by
  simp [equalRange, erase, List.filter_filter]

/-- After an assignment to a key that has entries, it has the assigned value only. -/
lemma equalRange_assign_self {k : κ} {d : Multimap κ ν} {e : κ × ν}
    (h : find eqv k d = some e) (v : ν) :
    equalRange eqv k (assign eqv k v d) = [(e.1, v)] := by
  induction d with
  | nil => simp [find] at h
  | cons f d ih =>
    cases hfk : eqv f.1 k with
    | true =>
      have hfe : f = e := by simpa [find, hfk] using h
      subst hfe
      simp only [assign, hfk, if_true]
      rw [equalRange, List.filter_cons_of_pos (by simpa using hfk)]
      have := equalRange_erase_self eqv k d
      rw [equalRange] at this
      rw [this]
    | false =>
      have hd : find eqv k d = some e := by simpa [find, hfk] using h
      simp only [assign, hfk, Bool.false_eq_true, if_false]
      rw [equalRange, List.filter_cons_of_neg (by simp [hfk])]
      exact ih hd

lemma mem_assign {k : κ} {v : ν} {d : Multimap κ ν} {e : κ × ν} (h : e ∈ assign eqv k v d) :
    e ∈ d ∨ e.2 = v ∧ ∃ f ∈ d, f.1 = e.1 := by
  induction d with
  | nil => exact absurd h List.not_mem_nil
  | cons f d ih =>
    simp only [assign] at h
    split at h
    · rcases List.mem_cons.1 h with rfl | h
      · exact Or.inr ⟨rfl, f, List.mem_cons_self, rfl⟩
      · exact Or.inl (List.mem_cons_of_mem _ ((List.mem_filter.1 h).1))
    · rcases List.mem_cons.1 h with rfl | h
      · exact Or.inl List.mem_cons_self
      · rcases ih h with hd | ⟨hv, g, hg, hgk⟩
        · exact Or.inl (List.mem_cons_of_mem _ hd)
        · exact Or.inr ⟨hv, g, List.mem_cons_of_mem _ hg, hgk⟩

end Multimap

/-- A way to walk through the entries of a multimap: every key keeps its entries and
their order. -/
structure Iteration (κ ν : Type*) (eqv : κ → κ → Bool) where
  walk : Multimap κ ν → Multimap κ ν
  equalRange_walk : ∀ k d, Multimap.equalRange eqv k (walk d) = Multimap.equalRange eqv k d

namespace Iteration

variable {κ ν : Type*} {eqv : κ → κ → Bool}

/-- The walk in the order of insertion. -/
def insertion : Iteration κ ν eqv := ⟨id, fun _ _ => rfl⟩

/-- A walk meets exactly the entries of the multimap. -/
lemma mem_walk (it : Iteration κ ν eqv) (hrefl : ∀ k, eqv k k = true)
    {d : Multimap κ ν} {e : κ × ν} : e ∈ it.walk d ↔ e ∈ d := by
  have h := it.equalRange_walk e.1 d
  have hmem : ∀ d' : Multimap κ ν, e ∈ Multimap.equalRange eqv e.1 d' ↔ e ∈ d' := fun d' => by
    rw [Multimap.mem_equalRange, hrefl]
    simp
  rw [← hmem, h, hmem]

end Iteration

end PionCore.Lib
