/-
# Linked lists

The list that pointers from one element to the next link together.
-/
import Mathlib.Data.List.Basic
import Mathlib.Logic.Function.Basic

namespace PionCore.Lib

variable {α : Type*} {next next' : α → Option α} {p : Option α} {a : α} {l l' l₁ l₂ : List α}

/-- From the pointer `p` on, the elements of the list are linked together, and the last of them
has no next one. -/
def Linked (next : α → Option α) : Option α → List α → Prop
  | p, [] => p = none
  | p, a :: l => p = some a ∧ Linked next (next a) l

lemma linked_cons : Linked next (some a) (a :: l) ↔ Linked next (next a) l :=
  ⟨fun h => h.2, fun h => ⟨rfl, h⟩⟩

/-- A pointer is the beginning of one list at most. -/
lemma linked_unique (h : Linked next p l) (h' : Linked next p l') : l = l' := by
  induction l generalizing p l' with
  | nil =>
    obtain rfl : p = none := h
    cases l' with
    | nil => rfl
    | cons b l' => exact absurd h'.1 (Option.some_ne_none b).symm
  | cons a l ih =>
    obtain ⟨rfl, hl⟩ := h
    cases l' with
    | nil => exact absurd h' (Option.some_ne_none a)
    | cons b l' =>
      obtain ⟨hab, hl'⟩ := h'
      obtain rfl : a = b := Option.some.inj hab
      rw [ih hl hl']

/-- Only the pointers of the elements count. -/
lemma linked_congr (h : Linked next p l) (hnext : ∀ b ∈ l, next' b = next b) :
    Linked next' p l := by
  induction l generalizing p with
  | nil => exact h
  | cons a l ih =>
    refine ⟨h.1, ?_⟩
    rw [hnext a List.mem_cons_self]
    exact ih h.2 fun b hb => hnext b (List.mem_cons_of_mem a hb)

/-- The rest of a list from one of its elements on. -/
lemma linked_suffix (h : Linked next p (l₁ ++ a :: l₂)) : Linked next (some a) (a :: l₂) := by
  induction l₁ generalizing p with
  | nil => exact ⟨rfl, h.2⟩
  | cons b l₁ ih => exact ih h.2

/-- No element comes twice: the pointers would go round in a circle. -/
lemma linked_nodup (h : Linked next p l) : l.Nodup := by
  induction l generalizing p with
  | nil => exact List.nodup_nil
  | cons a l ih =>
    refine List.nodup_cons.2 ⟨fun hmem => ?_, ih h.2⟩
    obtain ⟨l₁, l₂, rfl⟩ := List.append_of_mem hmem
    have heq := linked_unique (linked_suffix h.2) (linked_cons.2 h.2)
    have hlength := congrArg List.length heq
    simp only [List.length_cons, List.length_append] at hlength
    omega

/-- An element is linked to the last one. -/
lemma linked_snoc {t : α} (h : Linked next p l) (hlast : l.getLast? = some t)
    (hsame : ∀ b ∈ l, b ≠ t → next' b = next b) (ht : next' t = some a) (ha : next' a = none) :
    Linked next' p (l ++ [a]) := by
  have hnodup := linked_nodup h
  induction l generalizing p with
  | nil => cases hlast
  | cons b l ih =>
    refine ⟨h.1, ?_⟩
    cases l with
    | nil =>
      obtain rfl : b = t := Option.some.inj hlast
      exact ⟨ht, ha⟩
    | cons b' l =>
      rw [List.getLast?_cons_cons] at hlast
      have hne : b ≠ t := by
        rintro rfl
        exact (List.nodup_cons.1 hnodup).1 (List.mem_of_getLast? hlast)
      rw [hsame b List.mem_cons_self hne]
      exact ih h.2 hlast (fun c hc => hsame c (List.mem_cons_of_mem b hc))
        (List.nodup_cons.1 hnodup).2

variable [DecidableEq α]

/-- When the next pointer of an element is removed, the list ends there. -/
lemma linked_cut (h : Linked next p (l₁ ++ a :: l₂)) :
    Linked (Function.update next a none) p (l₁ ++ [a]) := by
  have hnodup := linked_nodup h
  induction l₁ generalizing p with
  | nil => exact ⟨h.1, by simp [Linked]⟩
  | cons b l₁ ih =>
    have hne : b ≠ a := by
      rintro rfl
      exact (List.nodup_cons.1 hnodup).1 (by simp)
    refine ⟨h.1, ?_⟩
    rw [Function.update_of_ne hne]
    exact ih h.2 (List.nodup_cons.1 hnodup).2

end PionCore.Lib
