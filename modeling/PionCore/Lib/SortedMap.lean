/-
# Sorted maps

A `std::map` as the list of its entries in the order of the keys: assignment to a key, look-up and
erasure.
-/
import Mathlib.Data.List.Basic

namespace PionCore.Lib

variable {κ ν : Type*} [DecidableEq κ]

namespace SortedMap

/-- `m[k] = v`. -/
def assign [LT κ] [DecidableLT κ] (k : κ) (v : ν) : List (κ × ν) → List (κ × ν)
  | [] => [(k, v)]
  | e :: l =>
      if e.1 = k then (k, v) :: l
      else if k < e.1 then (k, v) :: e :: l
      else e :: assign k v l

/-- `find`. -/
def find (k : κ) (l : List (κ × ν)) : Option ν := (l.find? (·.1 = k)).map Prod.snd

/-- `erase`. -/
def erase (k : κ) (l : List (κ × ν)) : List (κ × ν) := l.filter (·.1 ≠ k)

variable {k j : κ} {v : ν} {l : List (κ × ν)} {e : κ × ν}

@[simp] lemma find_nil : find k ([] : List (κ × ν)) = none := rfl

@[simp] lemma find_cons_self : find k ((k, v) :: l) = some v := by
  simp [find]

lemma find_cons_of_ne (h : e.1 ≠ k) : find k (e :: l) = find k l := by
  simp [find, h]

lemma find_cons_eq (h : e.1 = k) : find k (e :: l) = some e.2 := by
  simp [find, h]

@[simp] lemma find_erase_self : find k (erase k l) = none := by
  simp [find, erase]

lemma find_erase_of_ne (h : j ≠ k) : find j (erase k l) = find j l := by
  induction l with
  | nil => rfl
  | cons e l ih =>
    by_cases hk : e.1 = k
    · have hdrop : erase k (e :: l) = erase k l := by simp [erase, hk]
      rw [hdrop, ih, find_cons_of_ne (hk.trans_ne h.symm)]
    · have hkeep : erase k (e :: l) = e :: erase k l := by simp [erase, hk]
      rw [hkeep]
      by_cases hj : e.1 = j
      · rw [find_cons_eq hj, find_cons_eq hj]
      · rw [find_cons_of_ne hj, find_cons_of_ne hj, ih]

lemma mem_of_mem_erase (h : e ∈ erase k l) : e ∈ l := (List.mem_filter.1 h).1

variable [LT κ] [DecidableLT κ]

lemma mem_assign (h : e ∈ assign k v l) : e = (k, v) ∨ e ∈ l := by
  induction l with
  | nil => exact Or.inl (List.mem_singleton.1 h)
  | cons f l ih =>
    rw [assign] at h
    split_ifs at h with heq hlt
    · rcases List.mem_cons.1 h with h | h
      · exact Or.inl h
      · exact Or.inr (List.mem_cons_of_mem _ h)
    · exact List.mem_cons.1 h
    · rcases List.mem_cons.1 h with h | h
      · exact Or.inr (List.mem_cons.2 (Or.inl h))
      · exact (ih h).imp_right (List.mem_cons_of_mem _)

@[simp] lemma find_assign_self : find k (assign k v l) = some v := by
  induction l with
  | nil => exact find_cons_self
  | cons e l ih =>
    rw [assign]
    split_ifs with heq hlt
    · exact find_cons_self
    · exact find_cons_self
    · rw [find_cons_of_ne heq, ih]

lemma find_assign_of_ne (h : j ≠ k) : find j (assign k v l) = find j l := by
  induction l with
  | nil => exact find_cons_of_ne h.symm
  | cons e l ih =>
    rw [assign]
    split_ifs with heq hlt
    · rw [find_cons_of_ne h.symm, find_cons_of_ne (heq.trans_ne h.symm)]
    · exact find_cons_of_ne h.symm
    · by_cases hj : e.1 = j
      · rw [find_cons_eq hj, find_cons_eq hj]
      · rw [find_cons_of_ne hj, find_cons_of_ne hj, ih]

end SortedMap

end PionCore.Lib
