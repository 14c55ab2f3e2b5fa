/-
# Cursors of sorted multimaps

A cursor is the position of an entry, or the end.  When an entry comes in, the cursors at the place
where it comes to stand and those behind move on by one, so that they are at the same entries as
before.
-/
import PionCore.Lib.SortedMultimap

namespace PionCore.Lib.SortedMultimap

variable {κ ν : Type*} [LinearOrder κ] {k : κ} {v : ν} {l a b : List (κ × ν)} {p : ℕ}

/-- Where a cursor is when an entry of a key has come in. -/
def moved (k : κ) (l : List (κ × ν)) (p : ℕ) : ℕ := if upperBound k l ≤ p then p + 1 else p

/-- All entries in front of the cursor have smaller keys than those from it on. -/
def Boundary (l : List (κ × ν)) (p : ℕ) : Prop :=
  ∃ a b : List (κ × ν), l = a ++ b ∧ a.length = p ∧ ∀ e ∈ a, ∀ f ∈ b, e.1 < f.1

/-- An entry does not come in behind greater ones. -/
lemma insertEqual_append (hb : ∀ e ∈ b, k < e.1) :
    insertEqual k v (a ++ b) = insertEqual k v a ++ b := by
  induction a with
  | nil =>
    cases b with
    | nil => rfl
    | cons e b => exact if_pos (hb e List.mem_cons_self)
  | cons e a ih =>
    rw [List.cons_append, insertEqual, insertEqual]
    split_ifs
    · rfl
    · rw [ih, List.cons_append]

lemma length_insertEqual : (insertEqual k v l).length = l.length + 1 := by
  induction l with
  | nil => rfl
  | cons e l ih =>
    rw [insertEqual]
    split_ifs
    · rfl
    · rw [List.length_cons, ih, List.length_cons]

/-- A new entry with the key of an entry comes in behind it. -/
lemma Sorted.lt_upperBound (h : Sorted l) (hp : l[p]? = some (k, v)) : p < upperBound k l := by
  obtain ⟨a, b, c, rfl, ha, hb, hc⟩ := h.split k
  rw [upperBound_split ha hb hc]
  by_contra hle
  rw [List.getElem?_append_right (by omega), List.getElem?_append_right (by omega)] at hp
  exact lt_irrefl _ (hc _ (List.mem_of_getElem? hp))

/-- A cursor stays at its entry, when another one of the key comes in. -/
lemma Sorted.moved_self (h : Sorted l) (hp : l[p]? = some (k, v)) : moved k l p = p :=
  if_neg (not_le.2 (h.lt_upperBound hp))

lemma upperBound_append_le (hb : ∀ e ∈ b, k < e.1) : upperBound k (a ++ b) ≤ a.length := by
  have hfirst : List.findIdx (fun e : κ × ν => decide (k < e.1)) b = 0 := by
    cases b with
    | nil => rfl
    | cons e b => simp [List.findIdx_cons, hb e List.mem_cons_self]
  rw [upperBound, List.findIdx_append, hfirst]
  split_ifs with hlt
  · exact hlt.le
  · exact (Nat.zero_add _).le

lemma Boundary.length : Boundary l l.length :=
  ⟨l, [], (List.append_nil l).symm, rfl, by simp⟩

/-- The end of the range of a key. -/
lemma Sorted.boundary_upperBound (h : Sorted l) (k : κ) : Boundary l (upperBound k l) := by
  obtain ⟨a, b, c, rfl, ha, hb, hc⟩ := h.split k
  rw [upperBound_split ha hb hc]
  refine ⟨a ++ b, c, (List.append_assoc a b c).symm, List.length_append, ?_⟩
  intro e he f hf
  rcases List.mem_append.1 he with he | he
  · exact (ha e he).trans (hc f hf)
  · exact (hb e he).trans_lt (hc f hf)

/-- A boundary moves, when an entry comes in whose key stands in front of it. -/
lemma Boundary.step {last : ℕ} (h : Boundary l last) (hp : l[p]? = some (k, v))
    (hlt : p < last) : moved k l last = last + 1 ∧ Boundary (insertEqual k v l) (last + 1) := by
  obtain ⟨a, b, rfl, rfl, hab⟩ := h
  rw [List.getElem?_append_left hlt] at hp
  have hb : ∀ e ∈ b, k < e.1 := hab _ (List.mem_of_getElem? hp)
  refine ⟨if_pos (upperBound_append_le hb), insertEqual k v a, b, insertEqual_append hb,
    length_insertEqual, ?_⟩
  intro e he f hf
  rcases mem_insertEqual.1 he with rfl | he
  · exact hb f hf
  · exact hab e he f hf

/-- A boundary is not behind the end. -/
lemma Boundary.le (h : Boundary l p) : p ≤ l.length := by
  obtain ⟨a, b, rfl, rfl, -⟩ := h
  rw [List.length_append]
  exact Nat.le_add_right _ _

omit [LinearOrder κ] in
lemma range_self (p : ℕ) (l : List (κ × ν)) : range p p l = [] := by
  rw [range, Nat.sub_self, List.take_zero]

omit [LinearOrder κ] in
lemma range_step {last : ℕ} {e : κ × ν} (hp : l[p]? = some e) (hlt : p < last) :
    range p last l = e :: range (p + 1) last l := by
  obtain ⟨hlen, rfl⟩ := List.getElem?_eq_some_iff.1 hp
  rw [range, List.drop_eq_getElem_cons hlen, range,
    show last - p = last - (p + 1) + 1 by omega, List.take_succ_cons]

end PionCore.Lib.SortedMultimap
