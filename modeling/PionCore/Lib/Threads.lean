/-
# The number of threads at a place

A system of any number of threads, of which finitely many are at a place of some kind.  When one
thread goes on, their number changes by one at most.
-/
import Mathlib.Data.Finset.Card
import Mathlib.Logic.Function.Basic

namespace PionCore.Lib

variable {ι σ : Type*} {f : σ → Bool} {threads : ι → σ} {n : ℕ} {c d : ι}

/-- There are `n` threads at the places of `f`. -/
def NumberOf (f : σ → Bool) (threads : ι → σ) (n : ℕ) : Prop :=
  ∃ F : Finset ι, (∀ c, c ∈ F ↔ f (threads c) = true) ∧ F.card = n

lemma numberOf_zero (h : ∀ c, f (threads c) = false) : NumberOf f threads 0 := by
  refine ⟨∅, fun c => ?_, rfl⟩
  rw [h c]
  simp

lemma NumberOf.pos (h : NumberOf f threads n) (hc : f (threads c) = true) : 0 < n := by
  obtain ⟨F, hF, rfl⟩ := h
  exact Finset.card_pos.2 ⟨c, (hF c).2 hc⟩

lemma NumberOf.exists (h : NumberOf f threads n) (hpos : 0 < n) : ∃ c, f (threads c) = true := by
  obtain ⟨F, hF, rfl⟩ := h
  obtain ⟨c, hc⟩ := Finset.card_pos.1 hpos
  exact ⟨c, (hF c).1 hc⟩

lemma NumberOf.eq_zero (h : NumberOf f threads n) (hnone : ∀ c, f (threads c) = false) :
    n = 0 := by
  by_contra hne
  obtain ⟨c, hc⟩ := h.exists (Nat.pos_of_ne_zero hne)
  exact Bool.false_ne_true ((hnone c).symm.trans hc)

/-- One thread at most is at a place. -/
lemma NumberOf.le_one_iff (h : NumberOf f threads n) :
    n ≤ 1 ↔ ∀ c d, f (threads c) = true → f (threads d) = true → c = d := by
  obtain ⟨F, hF, rfl⟩ := h
  rw [Finset.card_le_one]
  constructor
  · intro hone c d hc hd
    exact hone c ((hF c).2 hc) d ((hF d).2 hd)
  · intro hone c hc d hd
    exact hone c d ((hF c).1 hc) ((hF d).1 hd)

variable [DecidableEq ι]

/-- One thread goes on, and the others stay where they are. -/
lemma NumberOf.update (h : NumberOf f threads n) (c : ι) (s : σ) :
    ∃ m, NumberOf f (Function.update threads c s) m ∧
      m + (f (threads c)).toNat = n + (f s).toNat := by
  obtain ⟨F, hF, rfl⟩ := h
  refine ⟨_, ⟨if f s then insert c (F.erase c) else F.erase c, fun d => ?_, rfl⟩, ?_⟩
  · by_cases hd : d = c
    · subst hd
      rw [Function.update_self]
      split_ifs with hs <;> simp [hs]
    · rw [Function.update_of_ne hd, ← hF]
      split_ifs <;> simp [hd]
  · have herase : (F.erase c).card + (f (threads c)).toNat = F.card := by
      cases hc : f (threads c) with
      | true => exact Finset.card_erase_add_one ((hF c).2 hc)
      | false =>
        have hnot : c ∉ F := fun hmem => Bool.false_ne_true (hc.symm.trans ((hF c).1 hmem))
        rw [Finset.erase_eq_of_notMem hnot]
        rfl
    split_ifs with hs
    · rw [Finset.card_insert_of_notMem (by simp), hs, ← herase]
      simp only [Bool.toNat_true]
      omega
    · rw [herase, Bool.eq_false_iff.2 hs]
      rfl

end PionCore.Lib
