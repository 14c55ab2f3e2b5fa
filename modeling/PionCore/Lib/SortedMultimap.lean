/-
# Sorted multimaps

A multimap that is a sorted list of its entries: a new one comes behind those of the same key, as
in a balanced tree with `insert_equal_upper_bound`.  Positions in the list stand for the nodes of
the tree.
-/
import Mathlib.Data.List.Basic
import Mathlib.Order.Lattice

namespace PionCore.Lib

variable {κ ν : Type*} [LinearOrder κ]

namespace SortedMultimap

/-- Insert an entry in front of the first one with a greater key. -/
def insertEqual (k : κ) (v : ν) : List (κ × ν) → List (κ × ν)
  | [] => [(k, v)]
  | e :: l => if k < e.1 then (k, v) :: e :: l else e :: insertEqual k v l

/-- The position of the first entry whose key is not less. -/
def lowerBound (k : κ) (l : List (κ × ν)) : ℕ := l.findIdx fun e => ! decide (e.1 < k)

/-- The position of the first entry with a greater key. -/
def upperBound (k : κ) (l : List (κ × ν)) : ℕ := l.findIdx fun e => k < e.1

/-- The first entry of a key. -/
def find (k : κ) (l : List (κ × ν)) : Option (κ × ν) :=
  match l[lowerBound k l]? with
  | none => none
  | some e => if k < e.1 then none else some e

/-- The entries from a position on, up to another one. -/
def range (i j : ℕ) (l : List (κ × ν)) : List (κ × ν) := (l.drop i).take (j - i)

/-- Erase `n` entries, one after the other, from a position on. -/
def eraseFrom (i : ℕ) : ℕ → List (κ × ν) → List (κ × ν)
  | 0, l => l
  | n + 1, l => eraseFrom i n (l.eraseIdx i)

/-- Insert the entries of a list, one after the other. -/
def insertAll (l es : List (κ × ν)) : List (κ × ν) :=
  es.foldl (fun l e => insertEqual e.1 e.2 l) l

/-- The values of a key. -/
def values (k : κ) (l : List (κ × ν)) : List ν := (l.filter (·.1 = k)).map Prod.snd

def Sorted (l : List (κ × ν)) : Prop := l.Pairwise fun e f => e.1 ≤ f.1

variable {k j : κ} {v : ν} {l l' es : List (κ × ν)} {e : κ × ν}

lemma values_append : values k (l ++ l') = values k l ++ values k l' := by
  simp [values]

/-! ### Insertion -/

lemma mem_insertEqual : e ∈ insertEqual k v l ↔ e = (k, v) ∨ e ∈ l := by
  induction l with
  | nil => simp [insertEqual]
  | cons f l ih =>
    rw [insertEqual]
    split_ifs
    · simp
    · rw [List.mem_cons, ih, List.mem_cons]
      exact or_left_comm

lemma Sorted.insertEqual (h : Sorted l) : Sorted (insertEqual k v l) := by
  induction l with
  | nil => exact List.pairwise_singleton ..
  | cons f l ih =>
    obtain ⟨hf, hl⟩ := List.pairwise_cons.1 h
    rw [SortedMultimap.insertEqual]
    split_ifs with hlt
    · refine List.pairwise_cons.2 ⟨fun e he => ?_, h⟩
      rcases List.mem_cons.1 he with rfl | he
      · exact hlt.le
      · exact hlt.le.trans (hf e he)
    · refine List.pairwise_cons.2 ⟨fun e he => ?_, ih hl⟩
      rcases mem_insertEqual.1 he with rfl | he
      · exact not_lt.1 hlt
      · exact hf e he

lemma values_insertEqual_self (h : Sorted l) : values k (insertEqual k v l) = values k l ++ [v] := by
  induction l with
  | nil => simp [insertEqual, values]
  | cons f l ih =>
    obtain ⟨hf, hl⟩ := List.pairwise_cons.1 h
    rw [insertEqual]
    split_ifs with hlt
    · -- no entry of the rest has the key
      have hnone : values k (f :: l) = [] := by
        rw [values, List.map_eq_nil_iff, List.filter_eq_nil_iff]
        intro e he
        have hle : f.1 ≤ e.1 := by
          rcases List.mem_cons.1 he with rfl | he
          · exact le_rfl
          · exact hf e he
        simpa using (hlt.trans_le hle).ne'
      rw [hnone]
      have hcons : values k ((k, v) :: f :: l) = v :: values k (f :: l) := by simp [values]
      rw [hcons, hnone]
      rfl
    · have hcons : ∀ l : List (κ × ν), values k (f :: l) = values k [f] ++ values k l := fun l =>
        values_append (l := [f])
      rw [hcons, ih hl, hcons l, List.append_assoc]

lemma values_insertEqual_of_ne (hne : j ≠ k) : values j (insertEqual k v l) = values j l := by
  induction l with
  | nil => simp [insertEqual, values, Ne.symm hne]
  | cons f l ih =>
    rw [insertEqual]
    have hcons : ∀ f : κ × ν, ∀ l, values j (f :: l) = values j [f] ++ values j l := fun f l =>
      values_append (l := [f])
    split_ifs
    · rw [hcons (k, v)]
      simp [values, Ne.symm hne]
    · rw [hcons f, ih, ← hcons f]

lemma Sorted.insertAll (h : Sorted l) : Sorted (insertAll l es) := by
  induction es generalizing l with
  | nil => exact h
  | cons e es ih => exact ih h.insertEqual

/-- The values that are inserted come behind those of the same key. -/
lemma values_insertAll (h : Sorted l) : values k (insertAll l es) = values k l ++ values k es := by
  induction es generalizing l with
  | nil => simp [insertAll, values]
  | cons e es ih =>
    have hcons : values k (e :: es) = values k [e] ++ values k es := values_append (l := [e])
    have hins : values k (insertEqual e.1 e.2 l) = values k l ++ values k [e] := by
      by_cases he : e.1 = k
      · subst he
        rw [values_insertEqual_self h]
        simp [values]
      · rw [values_insertEqual_of_ne (Ne.symm he)]
        simp [values, he]
    rw [hcons, ← List.append_assoc, ← hins]
    exact ih h.insertEqual

/-! ### The entries of a key -/

/-- The entries with a smaller key, those of the key, and those with a greater one. -/
lemma Sorted.split (h : Sorted l) (k : κ) : ∃ a b c : List (κ × ν), l = a ++ (b ++ c) ∧
    (∀ e ∈ a, e.1 < k) ∧ (∀ e ∈ b, e.1 = k) ∧ ∀ e ∈ c, k < e.1 := by
  induction l with
  | nil => exact ⟨[], [], [], rfl, by simp, by simp, by simp⟩
  | cons f l ih =>
    obtain ⟨hf, hl⟩ := List.pairwise_cons.1 h
    obtain ⟨a, b, c, rfl, ha, hb, hc⟩ := ih hl
    rcases lt_trichotomy f.1 k with hlt | heq | hgt
    · exact ⟨f :: a, b, c, rfl, by simpa [hlt] using ha, hb, hc⟩
    · have hnil : a = [] := by
        refine List.eq_nil_iff_forall_not_mem.2 fun e he => ?_
        have hle := hf e (List.mem_append_left _ he)
        exact absurd (ha e he) (not_lt.2 (heq ▸ hle))
      subst hnil
      exact ⟨[], f :: b, c, rfl, by simp, by simpa [heq] using hb, hc⟩
    · have hnil : a = [] ∧ b = [] := by
        constructor <;> refine List.eq_nil_iff_forall_not_mem.2 fun e he => ?_
        · have hle := hf e (List.mem_append_left _ he)
          exact absurd (ha e he) (not_lt.2 (hgt.le.trans hle))
        · have hle := hf e (List.mem_append_right _ (List.mem_append_left _ he))
          exact absurd (hb e he) (hgt.trans_le hle).ne'
      obtain ⟨rfl, rfl⟩ := hnil
      exact ⟨[], [], f :: c, rfl, by simp, by simp, by simpa [hgt] using hc⟩

section Parts

variable {a b c : List (κ × ν)} (ha : ∀ e ∈ a, e.1 < k) (hb : ∀ e ∈ b, e.1 = k)
  (hc : ∀ e ∈ c, k < e.1)

include ha

lemma lowerBound_split (hb : ∀ e ∈ b, e.1 = k) (hc : ∀ e ∈ c, k < e.1) :
    lowerBound k (a ++ (b ++ c)) = a.length := by
  have hnone : List.findIdx (fun e : κ × ν => ! decide (e.1 < k)) a = a.length :=
    List.findIdx_eq_length.2 fun e he => by simpa using ha e he
  have hfirst : List.findIdx (fun e : κ × ν => ! decide (e.1 < k)) (b ++ c) = 0 := by
    cases b with
    | nil =>
      cases c with
      | nil => rfl
      | cons e c =>
        have hlt : ¬ e.1 < k := not_lt.2 (hc e List.mem_cons_self).le
        simp [List.findIdx_cons, hlt]
    | cons e b => simp [List.findIdx_cons, hb e List.mem_cons_self]
  rw [lowerBound, List.findIdx_append, hnone, if_neg (Nat.lt_irrefl _), hfirst, Nat.zero_add]

include hb hc

lemma upperBound_split : upperBound k (a ++ (b ++ c)) = a.length + b.length := by
  have hnone : List.findIdx (fun e : κ × ν => decide (k < e.1)) (a ++ b) = (a ++ b).length := by
    refine List.findIdx_eq_length.2 fun e he => ?_
    rcases List.mem_append.1 he with he | he
    · simpa using (ha e he).le
    · simpa using (hb e he).le
  have hfirst : List.findIdx (fun e : κ × ν => decide (k < e.1)) c = 0 := by
    cases c with
    | nil => rfl
    | cons e c => simp [List.findIdx_cons, hc e List.mem_cons_self]
  rw [upperBound, ← List.append_assoc, List.findIdx_append, hnone, if_neg (Nat.lt_irrefl _), hfirst,
    List.length_append, Nat.zero_add]

lemma filter_split : (a ++ (b ++ c)).filter (·.1 = k) = b := by
  rw [List.filter_append, List.filter_append]
  have hnone : a.filter (·.1 = k) = [] := List.filter_eq_nil_iff.2 fun e he => by
    simpa using (ha e he).ne
  have hnone' : c.filter (·.1 = k) = [] := List.filter_eq_nil_iff.2 fun e he => by
    simpa using (hc e he).ne'
  have hall : b.filter (·.1 = k) = b := List.filter_eq_self.2 fun e he => by
    simpa using hb e he
  rw [hnone, hnone', hall, List.nil_append, List.append_nil]

lemma range_split :
    range (lowerBound k (a ++ (b ++ c))) (upperBound k (a ++ (b ++ c))) (a ++ (b ++ c)) = b := by
  rw [lowerBound_split ha hb hc, upperBound_split ha hb hc, range, List.drop_left,
    Nat.add_sub_cancel_left, List.take_left]

end Parts

omit [LinearOrder κ] in
lemma eraseFrom_append {a b c : List (κ × ν)} :
    eraseFrom a.length b.length (a ++ (b ++ c)) = a ++ c := by
  induction b with
  | nil => rfl
  | cons e b ih =>
    rw [List.length_cons, eraseFrom, List.eraseIdx_append_of_length_le (Nat.le_refl _), Nat.sub_self]
    exact ih

/-- The range of a key has its entries. -/
lemma Sorted.range_eq (h : Sorted l) (k : κ) :
    range (lowerBound k l) (upperBound k l) l = l.filter (·.1 = k) := by
  obtain ⟨a, b, c, rfl, ha, hb, hc⟩ := h.split k
  rw [range_split ha hb hc, filter_split ha hb hc]

/-- What is left when the range of a key is erased. -/
lemma Sorted.eraseFrom_eq (h : Sorted l) (k : κ) :
    eraseFrom (lowerBound k l) (upperBound k l - lowerBound k l) l = l.filter (·.1 ≠ k) := by
  obtain ⟨a, b, c, rfl, ha, hb, hc⟩ := h.split k
  rw [upperBound_split ha hb hc, lowerBound_split ha hb hc, Nat.add_sub_cancel_left,
    eraseFrom_append, List.filter_append, List.filter_append]
  have hall : a.filter (·.1 ≠ k) = a := List.filter_eq_self.2 fun e he => by
    simpa using (ha e he).ne
  have hall' : c.filter (·.1 ≠ k) = c := List.filter_eq_self.2 fun e he => by
    simpa using (hc e he).ne'
  have hnone : b.filter (·.1 ≠ k) = [] := List.filter_eq_nil_iff.2 fun e he => by
    simpa using hb e he
  rw [hall, hall', hnone, List.nil_append]

/-- The first entry of a key has the first of its values. -/
lemma Sorted.find_eq (h : Sorted l) (k : κ) : find k l = (l.filter (·.1 = k)).head? := by
  obtain ⟨a, b, c, rfl, ha, hb, hc⟩ := h.split k
  rw [find, lowerBound_split ha hb hc, filter_split ha hb hc,
    List.getElem?_append_right (Nat.le_refl _), Nat.sub_self]
  cases b with
  | nil =>
    cases c with
    | nil => rfl
    | cons e c => simp [hc e List.mem_cons_self]
  | cons e b => simp [hb e List.mem_cons_self]

lemma Sorted.filter (h : Sorted l) (p : κ × ν → Bool) : Sorted (l.filter p) :=
  List.Pairwise.filter p h

lemma values_filter_self : values k (l.filter (·.1 ≠ k)) = [] := by
  rw [values, List.filter_filter, List.map_eq_nil_iff, List.filter_eq_nil_iff]
  intro e _
  simp

lemma values_filter_of_ne (hne : j ≠ k) : values j (l.filter (·.1 ≠ k)) = values j l := by
  rw [values, List.filter_filter, values]
  congr 1
  refine List.filter_congr fun e _ => ?_
  by_cases he : e.1 = j
  · simp [he, hne]
  · simp [he]

lemma values_filter_eq_self : values k (l.filter (·.1 = k)) = values k l := by
  rw [values, List.filter_filter, values]
  simp

lemma values_filter_eq_of_ne (hne : j ≠ k) : values j (l.filter (·.1 = k)) = [] := by
  rw [values, List.filter_filter, List.map_eq_nil_iff, List.filter_eq_nil_iff]
  intro e _ he
  have hboth : e.1 = j ∧ e.1 = k := by simpa using he
  exact hne (hboth.1.symm.trans hboth.2)

end SortedMultimap

end PionCore.Lib
