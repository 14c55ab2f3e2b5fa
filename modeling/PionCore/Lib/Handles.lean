/-
# Handles

Handles that point to objects, or to nothing.  They are created, made to point to something else,
and destroyed; `holders` counts the handles that point to an object, which is what a reference
count has to be.
-/
import Mathlib.Data.Finset.Card
import Mathlib.Tactic.Common

namespace PionCore.Lib

/-- The handles that exist, and what they point to. -/
structure Handles (ι β : Type*) where
  live : Finset ι := ∅
  ptr : ι → Option β := fun _ => none

namespace Handles

variable {ι β : Type*} {s : Handles ι β} {h g : ι} {b : β} {p : Option β}

/-- The handle exists, and points to the object. -/
def PointsTo (s : Handles ι β) (h : ι) (b : β) : Prop := h ∈ s.live ∧ s.ptr h = some b

section Moves

variable [DecidableEq ι]

/-- Make a handle point to `p`, and create it if it does not exist. -/
def point (s : Handles ι β) (h : ι) (p : Option β) : Handles ι β where
  live := insert h s.live
  ptr := Function.update s.ptr h p

/-- Destroy a handle. -/
def drop (s : Handles ι β) (h : ι) : Handles ι β where
  live := s.live.erase h
  ptr := Function.update s.ptr h none

@[simp] lemma point_live : (s.point h p).live = insert h s.live := rfl

@[simp] lemma drop_live : (s.drop h).live = s.live.erase h := rfl

@[simp] lemma point_ptr_self : (s.point h p).ptr h = p := Function.update_self ..

@[simp] lemma drop_ptr_self : (s.drop h).ptr h = none := Function.update_self ..

lemma point_ptr_of_ne (hne : g ≠ h) : (s.point h p).ptr g = s.ptr g := Function.update_of_ne hne ..

lemma drop_ptr_of_ne (hne : g ≠ h) : (s.drop h).ptr g = s.ptr g := Function.update_of_ne hne ..

lemma pointsTo_point_self : (s.point h p).PointsTo h b ↔ p = some b := by
  simp [PointsTo]

lemma pointsTo_drop_self : ¬ (s.drop h).PointsTo h b := by
  simp [PointsTo]

end Moves

/-! ### The number of holders -/

variable [DecidableEq β]

/-- The number of handles that point to an object. -/
def holders (s : Handles ι β) (b : β) : ℕ := (s.live.filter fun h => s.ptr h = some b).card

lemma holders_pos_iff : 0 < s.holders b ↔ ∃ h, s.PointsTo h b := by
  rw [holders, Finset.card_pos]
  constructor
  · rintro ⟨h, hmem⟩
    exact ⟨h, Finset.mem_filter.1 hmem⟩
  · rintro ⟨h, hpoints⟩
    exact ⟨h, Finset.mem_filter.2 hpoints⟩

lemma PointsTo.holders_pos (hpoints : s.PointsTo h b) : 0 < s.holders b :=
  holders_pos_iff.2 ⟨h, hpoints⟩

variable [DecidableEq ι]

/-- The number of holders but for one handle. -/
def others (s : Handles ι β) (h : ι) (b : β) : ℕ :=
  ((s.live.erase h).filter fun g => s.ptr g = some b).card

lemma others_of_pointsTo (hpoints : s.PointsTo h b) : s.others h b + 1 = s.holders b := by
  have hmem : h ∈ s.live.filter fun g => s.ptr g = some b := Finset.mem_filter.2 hpoints
  rw [holders, others, Finset.filter_erase, Finset.card_erase_add_one hmem]

lemma others_of_not_pointsTo (hpoints : ¬ s.PointsTo h b) : s.others h b = s.holders b := by
  have hmem : h ∉ s.live.filter fun g => s.ptr g = some b :=
    fun hmem => hpoints (Finset.mem_filter.1 hmem)
  rw [holders, others, Finset.filter_erase, Finset.erase_eq_of_notMem hmem]

/-- The other holders do not depend on where a handle points to. -/
lemma others_congr {t : Handles ι β} (hlive : t.live.erase h = s.live.erase h)
    (hptr : ∀ g, g ≠ h → t.ptr g = s.ptr g) : t.others h b = s.others h b := by
  rw [others, others, hlive]
  refine congrArg Finset.card (Finset.filter_congr fun g hg => ?_)
  rw [hptr g (Finset.ne_of_mem_erase hg)]

lemma others_point : (s.point h p).others h b = s.others h b :=
  others_congr (by simp) fun _ hne => point_ptr_of_ne hne

lemma holders_point_self (s : Handles ι β) (h : ι) (b : β) :
    (s.point h (some b)).holders b = s.others h b + 1 := by
  rw [← others_of_pointsTo (pointsTo_point_self.2 rfl), others_point]

lemma holders_point_of_ne (s : Handles ι β) (h : ι) (hne : p ≠ some b) :
    (s.point h p).holders b = s.others h b := by
  rw [← others_of_not_pointsTo (mt pointsTo_point_self.1 hne), others_point]

lemma holders_point (s : Handles ι β) (h : ι) (p : Option β) (b : β) :
    (s.point h p).holders b = s.others h b + if p = some b then 1 else 0 := by
  split_ifs with hp
  · rw [hp, holders_point_self]
  · rw [holders_point_of_ne s h hp, Nat.add_zero]

lemma holders_drop (s : Handles ι β) (h : ι) (b : β) : (s.drop h).holders b = s.others h b := by
  rw [← others_of_not_pointsTo pointsTo_drop_self]
  exact others_congr (by simp) fun _ hne => drop_ptr_of_ne hne

end Handles

end PionCore.Lib
