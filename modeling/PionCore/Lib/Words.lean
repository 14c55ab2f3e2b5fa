/-
# Words

The words of a text are its parts between separators, without the empty ones.
-/
import Mathlib.Data.List.Basic

namespace PionCore.Lib

variable {α : Type*} {p : α → Bool} {s t : List α} {x : α}

/-- The words of a text, between the letters that are separators. -/
def parts (p : α → Bool) (s : List α) : List (List α) :=
  (s.splitOnP p).filter fun w => ! w.isEmpty

lemma parts_nil : parts p [] = [] := rfl

lemma parts_append_cons (hx : p x = true) : parts p (s ++ x :: t) = parts p s ++ parts p t := by
  rw [parts, List.splitOnP_append_cons _ _ hx, List.filter_append]
  rfl

/-- A text without separators is a word. -/
lemma parts_of_forall (hs : ∀ y ∈ s, p y = false) (hne : s ≠ []) : parts p s = [s] := by
  rw [parts, List.splitOnP_eq_singleton hs, List.filter_cons, if_pos]
  · rfl
  · simpa using hne

/-- Separators in front do not count. -/
lemma parts_append_left (hs : ∀ y ∈ s, p y = true) : parts p (s ++ t) = parts p t := by
  induction s with
  | nil => rfl
  | cons x s ih =>
    obtain ⟨hx, hs⟩ := List.forall_mem_cons.1 hs
    have hcons := parts_append_cons (s := []) (t := s ++ t) hx
    rw [parts_nil, List.nil_append, List.nil_append] at hcons
    rw [List.cons_append, hcons, ih hs]

/-- Separators at the end do not count. -/
lemma parts_append_right (ht : ∀ y ∈ t, p y = true) : parts p (s ++ t) = parts p s := by
  cases t with
  | nil => rw [List.append_nil]
  | cons x t =>
    obtain ⟨hx, ht⟩ := List.forall_mem_cons.1 ht
    have hnil := parts_append_left (t := []) ht
    rw [List.append_nil, parts_nil] at hnil
    rw [parts_append_cons hx, hnil, List.append_nil]

lemma flatten_splitOnP (s : List α) : (s.splitOnP p).flatten = s.filter fun x => ! p x := by
  induction s with
  | nil => rfl
  | cons x s ih =>
    rw [List.splitOnP_cons_eq_if_modifyHead, List.filter_cons, ← ih]
    cases hsplit : s.splitOnP p with
    | nil => exact absurd hsplit (List.splitOnP_ne_nil p s)
    | cons w ws => cases hx : p x <;> simp

/-- The words have all letters but the separators. -/
lemma flatten_parts (s : List α) : (parts p s).flatten = s.filter fun x => ! p x := by
  rw [parts, List.flatten_filter_not_isEmpty, flatten_splitOnP]

lemma nil_notMem_parts (s : List α) : [] ∉ parts p s := by
  intro h
  exact absurd (List.mem_filter.1 h).2 (by simp)

end PionCore.Lib
