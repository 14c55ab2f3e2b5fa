/-
# Path prefixes

A path is a path prefix of another one if that goes on with a separator behind it, or is the same.
The path prefixes of a path stand in front of it in the lexicographic order, the longer ones
behind the shorter ones, so that a search through an ordered map that goes down from the path meets
the longest one first.
-/
import Mathlib.Data.List.Infix
import Std.Data.TreeMap
import Std.Data.TreeSet

namespace PionCore.Lib

section Paths

variable {α : Type*} {sep : α} {r s t : List α}

/-- `s` is `r`, or `r` goes on with a separator behind `s`. -/
def IsPathPrefix (sep : α) (s r : List α) : Prop := s = r ∨ s ++ [sep] <+: r

instance [DecidableEq α] (sep : α) (s r : List α) : Decidable (IsPathPrefix sep s r) :=
  inferInstanceAs (Decidable (s = r ∨ s ++ [sep] <+: r))

/-- `s` is the longest path prefix of `r` among the keys. -/
structure IsLongestPathPrefix (sep : α) (keys : Set (List α)) (r s : List α) : Prop where
  mem : s ∈ keys
  isPathPrefix : IsPathPrefix sep s r
  longest : ∀ t ∈ keys, IsPathPrefix sep t r → t.length ≤ s.length

lemma IsPathPrefix.isPrefix (h : IsPathPrefix sep s r) : s <+: r := by
  rcases h with rfl | h
  · exact List.prefix_rfl
  · exact (List.prefix_append s [sep]).trans h

/-- A path prefix is told by the element behind it. -/
lemma isPathPrefix_iff :
    IsPathPrefix sep s r ↔ s <+: r ∧ (r.length = s.length ∨ r[s.length]? = some sep) := by
  constructor
  · intro h
    refine ⟨h.isPrefix, ?_⟩
    rcases h with rfl | ⟨u, rfl⟩
    · exact .inl rfl
    · exact .inr (by simp)
  · rintro ⟨⟨u, rfl⟩, hlength | hsep⟩
    · have hu : u = [] := by
        rw [List.length_append] at hlength
        exact List.length_eq_zero_iff.1 (by omega)
      exact .inl (by simp [hu])
    · rw [List.getElem?_append_right (Nat.le_refl _), Nat.sub_self] at hsep
      cases u with
      | nil => simp at hsep
      | cons c u =>
        obtain rfl : c = sep := by simpa using hsep
        exact .inr ⟨u, by simp⟩

end Paths

section Order

variable {α : Type*} [Ord α] [Std.LawfulEqOrd α] {r s t : List α}

/-- What a list begins with stands in front of it. -/
lemma isLE_of_isPrefix (h : s <+: r) : (compare s r).isLE = true := by
  obtain ⟨u, rfl⟩ := h
  rw [List.compare_eq_compareLex]
  induction s with
  | nil => exact List.isLE_compareLex_nil_left
  | cons c s ih =>
    rw [List.cons_append, List.compareLex_cons_cons, Std.ReflOrd.compare_self]
    exact ih

/-- Of two beginnings of a list, the one in front is not longer. -/
lemma length_le_of_isPrefix [Std.TransOrd α] (hs : s <+: r) (ht : t <+: r)
    (h : (compare t s).isLE = true) : t.length ≤ s.length := by
  by_contra hlt
  have hst : s <+: t := List.prefix_of_prefix_length_le hs ht (by omega)
  have heq : compare t s = .eq := Std.OrientedCmp.isLE_antisymm h (isLE_of_isPrefix hst)
  exact hlt (Nat.le_of_eq (congrArg List.length (Std.LawfulEqCmp.eq_of_compare heq)))

end Order

/-! ### Going down through a map -/

section Map

variable {κ ν : Type*} [Ord κ]

/-- The entries of a map up to a key, the last of them first. -/
def entriesUpTo (m : Std.TreeMap κ ν) (k : κ) : List (κ × ν) :=
  (m.toList.filter fun e => (compare e.1 k).isLE).reverse

variable [Std.TransOrd κ] {m : Std.TreeMap κ ν} {k : κ} {e : κ × ν}

lemma mem_entriesUpTo [Std.LawfulEqOrd κ] :
    e ∈ entriesUpTo m k ↔ m[e.1]? = some e.2 ∧ (compare e.1 k).isLE = true := by
  obtain ⟨j, v⟩ := e
  rw [entriesUpTo, List.mem_reverse, List.mem_filter, Std.TreeMap.mem_toList_iff_getElem?_eq_some]

lemma pairwise_entriesUpTo :
    (entriesUpTo m k).Pairwise fun a b => compare b.1 a.1 = .lt := by
  rw [entriesUpTo, List.pairwise_reverse]
  exact (Std.TreeMap.ordered_keys_toList).filter _

end Map

section Longest

variable {α ν : Type*} [Ord α] [Std.LawfulEqOrd α] [Std.TransOrd α] {sep : α}
  {m : Std.TreeMap (List α) ν} {r : List α}

/-- The first path prefix that is met on the way down is the longest one. -/
lemma isLongestPathPrefix_of_entriesUpTo {a b : List (List α × ν)} {e : List α × ν}
    (h : entriesUpTo m r = a ++ e :: b) (he : IsPathPrefix sep e.1 r)
    (ha : ∀ f ∈ a, ¬ IsPathPrefix sep f.1 r) : IsLongestPathPrefix sep {k | k ∈ m} r e.1 := by
  have hmem : ∀ f ∈ entriesUpTo m r, f.1 ∈ m := fun f hf => by
    rw [Std.TreeMap.mem_iff_isSome_getElem?, (mem_entriesUpTo.1 hf).1]
    rfl
  refine ⟨hmem e (by rw [h]; simp), he, fun t ht htr => ?_⟩
  have hin : (t, m[t]) ∈ entriesUpTo m r :=
    mem_entriesUpTo.2 ⟨Std.TreeMap.getElem?_eq_some_getElem ht, isLE_of_isPrefix htr.isPrefix⟩
  -- the entry of the path prefix is not in front of the one that was found
  have hpair := pairwise_entriesUpTo (m := m) (k := r)
  rw [h] at hin hpair
  rcases List.mem_append.1 hin with hin | hin
  · exact absurd htr (ha _ hin)
  · rcases List.mem_cons.1 hin with heq | hin
    · exact Nat.le_of_eq (congrArg (fun f => f.1.length) heq)
    · have hlt : compare t e.1 = .lt := (List.pairwise_cons.1 (List.pairwise_append.1 hpair).2.1).1
        _ hin
      exact length_le_of_isPrefix he.isPrefix htr.isPrefix (by rw [hlt]; rfl)

end Longest

end PionCore.Lib
