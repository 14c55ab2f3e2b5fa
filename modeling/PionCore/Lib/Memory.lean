/-
# Blocks of memory

A block of memory is the list of its cells; a cell that was never written holds `none`.
`write` copies a word into a block, cell after cell; a cell outside of the block is not
changed, and `Fits` says that there was no such cell.
-/
import Mathlib.Data.List.Basic
import Mathlib.Tactic.Common

namespace PionCore.Lib

namespace Memory

variable {α : Type*}

/-- Copy a word into a block, from the cell `i` onwards. -/
def write (cells : List (Option α)) (i : ℕ) : List α → List (Option α)
  | [] => cells
  | c :: w => write (cells.set i (some c)) (i + 1) w

/-- The cells a word is copied to belong to the block. -/
def Fits (cells : List (Option α)) (i : ℕ) (w : List α) : Prop :=
  w = [] ∨ i + w.length ≤ cells.length

instance (cells : List (Option α)) (i : ℕ) (w : List α) : Decidable (Fits cells i w) :=
  match w with
  | [] => isTrue (Or.inl rfl)
  | c :: w => decidable_of_iff (i + (c :: w).length ≤ cells.length) (by simp [Fits])

@[simp] lemma write_nil (cells : List (Option α)) (i : ℕ) : write cells i [] = cells := rfl

@[simp] lemma fits_nil (cells : List (Option α)) (i : ℕ) : Fits cells i [] := Or.inl rfl

@[simp] lemma length_write (cells : List (Option α)) (i : ℕ) (w : List α) :
    (write cells i w).length = cells.length := by
  induction w generalizing cells i with
  | nil => rfl
  | cons c w ih => simp [write, ih]

/-- Copying two words one behind the other is copying their concatenation. -/
lemma write_append (cells : List (Option α)) (i : ℕ) (v w : List α) :
    write cells i (v ++ w) = write (write cells i v) (i + v.length) w := by
  induction v generalizing cells i with
  | nil => simp
  | cons c v ih =>
    rw [List.cons_append, write, ih, write, List.length_cons]
    congr 1
    omega

@[simp] lemma fits_write (cells : List (Option α)) (i j : ℕ) (v w : List α) :
    Fits (write cells i v) j w ↔ Fits cells j w := by
  simp [Fits]

lemma fits_append (cells : List (Option α)) (i : ℕ) (v w : List α) :
    Fits cells i (v ++ w) ↔ Fits cells i v ∧ Fits cells (i + v.length) w := by
  simp only [Fits, List.append_eq_nil_iff, List.length_append]
  rcases eq_or_ne v [] with rfl | hv
  · simp
  · rcases eq_or_ne w [] with rfl | hw
    · simp [hv]
    · simp only [hv, hw, false_and, false_or]
      omega

/-- A word that fits replaces the cells it is copied to. -/
lemma write_eq (front cells : List (Option α)) {w : List α} (h : w.length ≤ cells.length) :
    write (front ++ cells) front.length w = front ++ w.map some ++ cells.drop w.length := by
  induction w generalizing front cells with
  | nil => simp
  | cons c w ih =>
    cases cells with
    | nil => simp at h
    | cons d cells =>
      have hset : (front ++ d :: cells).set front.length (some c) =
          (front ++ [some c]) ++ cells := by simp
      rw [write, hset]
      have := ih (front ++ [some c]) cells (by simpa using h)
      rw [List.length_append, List.length_singleton] at this
      rw [this]
      simp

lemma getElem?_write (cells : List (Option α)) (i : ℕ) (w : List α) (j : ℕ) :
    (write cells i w)[j]? =
      if i ≤ j ∧ j < i + w.length ∧ j < cells.length then some w[j - i]? else cells[j]? := by
  induction w generalizing cells i with
  | nil =>
    have : ¬ (i ≤ j ∧ j < i + ([] : List α).length ∧ j < cells.length) := by
      simp only [List.length_nil]
      omega
    rw [if_neg this, write]
  | cons c w ih =>
    rw [write, ih, List.length_set, List.length_cons, List.getElem?_set]
    rcases Nat.lt_trichotomy j i with hlt | rfl | hgt
    · rw [if_neg (by omega), if_neg (by omega), if_neg (by omega)]
    · by_cases hj : j < cells.length
      · rw [if_neg (by omega), if_pos rfl, if_pos hj, if_pos (by omega)]
        simp
      · rw [if_neg (by omega), if_pos rfl, if_neg hj, if_neg (by omega)]
        simp [List.getElem?_eq_none (by omega : cells.length ≤ j)]
    · obtain ⟨k, rfl⟩ : ∃ k, j = i + 1 + k := ⟨j - (i + 1), by omega⟩
      have h1 : i + 1 + k - (i + 1) = k := by omega
      have h2 : i + 1 + k - i = k + 1 := by omega
      rw [h1, h2, List.getElem?_cons_succ, if_neg (by omega : i ≠ i + 1 + k)]
      by_cases hk : k < w.length ∧ i + 1 + k < cells.length
      · rw [if_pos (by omega), if_pos (by omega)]
      · rw [if_neg (by omega), if_neg (by omega)]

/-- A word that fits stands behind the cells in front of it. -/
lemma take_write (cells : List (Option α)) {i : ℕ} {w : List α}
    (h : i + w.length ≤ cells.length) :
    (write cells i w).take (i + w.length) = cells.take i ++ w.map some := by
  have hsplit : cells = cells.take i ++ cells.drop i := (List.take_append_drop i cells).symm
  have hi : (cells.take i).length = i := by
    rw [List.length_take]
    omega
  have hwrite := write_eq (cells.take i) (cells.drop i)
    (by rw [List.length_drop]; omega : w.length ≤ (cells.drop i).length)
  rw [← hsplit, hi] at hwrite
  have hlen : (cells.take i ++ w.map some).length = i + w.length := by
    rw [List.length_append, hi, List.length_map]
  rw [hwrite, List.take_append_of_le_length (Nat.le_of_eq hlen.symm),
    List.take_of_length_le (Nat.le_of_eq hlen)]

/-! ### Moving cells within a block -/

/-- Copy `n` cells of a block from the cell `src` onwards to the cell `dst` onwards; the two places
may overlap. -/
def move (cells : List (Option α)) (dst src n : ℕ) : List (Option α) :=
  cells.take dst ++ (cells.drop src).take n ++ cells.drop (dst + n)

lemma length_move (cells : List (Option α)) {dst src n : ℕ} (hdst : dst + n ≤ cells.length)
    (hsrc : src + n ≤ cells.length) : (move cells dst src n).length = cells.length := by
  simp only [move, List.length_append, List.length_take, List.length_drop]
  omega

/-- The cells that were moved. -/
lemma getElem?_move (cells : List (Option α)) {dst src n j : ℕ} (hdst : dst + n ≤ cells.length)
    (hsrc : src + n ≤ cells.length) (hj : j < n) :
    (move cells dst src n)[dst + j]? = cells[src + j]? := by
  have hlen : (cells.take dst).length = dst := by
    rw [List.length_take]
    omega
  rw [move, List.append_assoc, List.getElem?_append_right (by omega), hlen,
    Nat.add_sub_cancel_left, List.getElem?_append_left (by
      rw [List.length_take, List.length_drop]
      omega), List.getElem?_take_of_lt hj, List.getElem?_drop]

end Memory

end PionCore.Lib
