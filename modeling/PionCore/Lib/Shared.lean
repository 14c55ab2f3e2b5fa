/-
# Shared objects

Handles that share objects.  The objects are numbered as they are made, and an object that no handle
points to keeps its record.  What a reference count has to be is a relation between an object and
the number of its handles; it is kept if leaving and joining an object keep it.
-/
import PionCore.Lib.Handles
import Mathlib.Data.List.Basic

namespace PionCore.Lib

/-- The handles and the objects. -/
structure Shared (ι β : Type*) where
  handles : Handles ι ℕ := {}
  objects : List β := []

namespace Shared

variable {ι β γ : Type*} {s t : Shared ι β} {h g : ι} {b : ℕ}

/-- What a handle sees of its object. -/
def view (v : β → γ) (s : Shared ι β) (h : ι) : Option γ :=
  (s.handles.ptr h).bind fun b => (s.objects[b]?).map v

/-- Every object is as it has to be for the number of its handles. -/
structure Counts (C : β → ℕ → Prop) (s : Shared ι β) : Prop where
  live : ∀ h b, s.handles.ptr h = some b → h ∈ s.handles.live ∧ b < s.objects.length
  counted : ∀ b obj, s.objects[b]? = some obj → C obj (s.handles.holders b)

variable {C : β → ℕ → Prop} {v : β → γ}

lemma counts_start : Counts C ({} : Shared ι β) where
  live _ _ hptr := by cases hptr
  counted _ _ hb := by cases hb

lemma Counts.pointsTo (hs : s.Counts C) (hptr : s.handles.ptr h = some b) :
    s.handles.PointsTo h b :=
  ⟨(hs.live h b hptr).1, hptr⟩

/-- A handle that does not exist points nowhere. -/
lemma Counts.ptr_of_not_live (hs : s.Counts C) (hlive : h ∉ s.handles.live) :
    s.handles.ptr h = none := by
  cases hptr : s.handles.ptr h with
  | none => rfl
  | some b => exact absurd (hs.live h b hptr).1 hlive

/-- The object that a handle points to. -/
lemma Counts.object (hs : s.Counts C) (hptr : s.handles.ptr h = some b) :
    ∃ obj, s.objects[b]? = some obj :=
  ⟨_, List.getElem?_eq_getElem (hs.live h b hptr).2⟩

/-- No handle points to an object that does not exist. -/
lemma Counts.holders_length (hs : s.Counts C) : s.handles.holders s.objects.length = 0 := by
  by_contra hpos
  obtain ⟨g, hg⟩ := Handles.holders_pos_iff.1 (Nat.pos_of_ne_zero hpos)
  exact lt_irrefl _ (hs.live g _ hg.2).2

lemma view_of_none (hptr : s.handles.ptr h = none) : s.view v h = none := by
  rw [view, hptr]
  rfl

/-- Two handles see the same, if they point to the same object, and nothing that they see of it has
changed. -/
lemma view_congr (hptr : t.handles.ptr h = s.handles.ptr g)
    (hobjects : ∀ b, s.handles.ptr g = some b →
      (t.objects[b]?).map v = (s.objects[b]?).map v) :
    t.view v h = s.view v g := by
  rw [view, view, hptr]
  exact Option.bind_congr hobjects

/-- A change of an object that cannot be seen. -/
lemma map_modify {f : β → β} (hf : ∀ obj, v (f obj) = v obj) (objects : List β) (b c : ℕ) :
    ((objects.modify b f)[c]?).map v = (objects[c]?).map v := by
  rw [List.getElem?_modify]
  cases objects[c]? with
  | none => rfl
  | some obj =>
    show some (v (if b = c then f obj else obj)) = some (v obj)
    split_ifs
    · rw [hf]
    · rfl

/-- A new object that no handle points to. -/
def add (s : Shared ι β) (obj : β) : Shared ι β := { s with objects := s.objects ++ [obj] }

lemma Counts.add (hs : s.Counts C) (hobj : C obj 0) : (s.add obj).Counts C := by
  refine ⟨fun h b hptr => ?_, fun b new hb => ?_⟩
  · obtain ⟨hlive, hlt⟩ := hs.live h b hptr
    refine ⟨hlive, hlt.trans_le ?_⟩
    simp [Shared.add]
  · rw [Shared.add, List.getElem?_append] at hb
    split_ifs at hb with hlt
    · exact hs.counted b new hb
    · obtain ⟨hzero, rfl⟩ : b - s.objects.length = 0 ∧ obj = new := by
        simpa [List.getElem?_singleton] using hb
      obtain rfl : s.objects.length = b := by omega
      show C obj (s.handles.holders s.objects.length)
      rw [hs.holders_length]
      exact hobj

variable [DecidableEq ι]

/-- A handle leaves its object, which is changed by it. -/
def leave (f : β → β) (s : Shared ι β) (h : ι) : Shared ι β :=
  match s.handles.ptr h with
  | none => s
  | some b => { handles := s.handles.point h none, objects := s.objects.modify b f }

/-- A handle is attached to an object, or to none.  The object is changed by it. -/
def attach (f : β → β) (s : Shared ι β) (h : ι) (p : Option ℕ) : Shared ι β :=
  { handles := s.handles.point h p
    objects :=
      match p with
      | none => s.objects
      | some b => s.objects.modify b f }

/-- A handle joins another one at its object. -/
def join (f : β → β) (s : Shared ι β) (h g : ι) : Shared ι β := s.attach f h (s.handles.ptr g)

/-- A handle points to a new object. -/
def create (s : Shared ι β) (h : ι) (obj : β) : Shared ι β :=
  { handles := s.handles.point h (some s.objects.length), objects := s.objects ++ [obj] }

/-- A handle is made that points nowhere. -/
def construct (s : Shared ι β) (h : ι) : Shared ι β := { s with handles := s.handles.point h none }

/-- A handle ceases to exist. -/
def destroy (s : Shared ι β) (h : ι) : Shared ι β := { s with handles := s.handles.drop h }

variable {f : β → β} {obj : β}

/-! ### The counts -/

/-- A handle points to something else, and the objects count it there. -/
lemma Counts.point {p : Option ℕ} {objects : List β} (hs : s.Counts C)
    (hlen : s.objects.length ≤ objects.length) (hp : ∀ b, p = some b → b < objects.length)
    (hcounted : ∀ b obj, objects[b]? = some obj →
      C obj (s.handles.others h b + if p = some b then 1 else 0)) :
    Counts C { handles := s.handles.point h p, objects := objects } := by
  refine ⟨fun g b hg => ?_, fun b obj hb => ?_⟩
  · by_cases hgh : g = h
    · subst hgh
      rw [Handles.point_ptr_self] at hg
      exact ⟨Finset.mem_insert_self .., hp b hg⟩
    · rw [Handles.point_ptr_of_ne hgh] at hg
      obtain ⟨hlive, hlt⟩ := hs.live g b hg
      exact ⟨Finset.mem_insert_of_mem hlive, hlt.trans_le hlen⟩
  · rw [Handles.holders_point]
    exact hcounted b obj hb

/-- A handle that points nowhere is not among the holders. -/
lemma others_of_none (hptr : s.handles.ptr h = none) :
    s.handles.others h b = s.handles.holders b := by
  refine Handles.others_of_not_pointsTo fun hpoints => ?_
  cases hptr.symm.trans hpoints.2

lemma Counts.construct (hs : s.Counts C) (hptr : s.handles.ptr h = none) :
    (s.construct h).Counts C := by
  refine hs.point le_rfl (by simp) fun b obj hb => ?_
  rw [others_of_none hptr, if_neg (by simp)]
  exact hs.counted b obj hb

lemma Counts.leave (hs : s.Counts C)
    (hf : ∀ b obj, s.handles.ptr h = some b → s.objects[b]? = some obj →
      C obj (s.handles.others h b + 1) → C (f obj) (s.handles.others h b)) :
    (s.leave f h).Counts C := by
  rw [Shared.leave]
  cases hptr : s.handles.ptr h with
  | none => exact hs
  | some b =>
    refine hs.point (by simp) (by simp) fun c obj hc => ?_
    rw [if_neg (by simp), Nat.add_zero]
    rw [List.getElem?_modify] at hc
    obtain ⟨old, hold, rfl⟩ := Option.map_eq_some_iff.1 hc
    have hcounted := hs.counted c old hold
    by_cases hbc : b = c
    · subst hbc
      rw [← Handles.others_of_pointsTo (hs.pointsTo hptr)] at hcounted
      rw [if_pos rfl]
      exact hf b old hptr hold hcounted
    · have hnot : ¬ s.handles.PointsTo h c := fun hc' => hbc
        (Option.some.inj (hptr.symm.trans hc'.2))
      rw [Handles.others_of_not_pointsTo hnot, if_neg hbc]
      exact hcounted

lemma Counts.attach {p : Option ℕ} (hs : s.Counts C) (hptr : s.handles.ptr h = none)
    (hp : ∀ b, p = some b → b < s.objects.length)
    (hf : ∀ b obj, p = some b → s.objects[b]? = some obj → C obj (s.handles.holders b) →
      C (f obj) (s.handles.holders b + 1)) : (s.attach f h p).Counts C := by
  cases p with
  | none => exact hs.construct hptr
  | some b =>
    refine hs.point (by simp) ?_ fun c obj hc => ?_
    · intro c hc
      obtain rfl : b = c := Option.some.inj hc
      simpa using hp b rfl
    · rw [others_of_none hptr]
      rw [List.getElem?_modify] at hc
      obtain ⟨old, hold, rfl⟩ := Option.map_eq_some_iff.1 hc
      have hcounted := hs.counted c old hold
      by_cases hbc : b = c
      · subst hbc
        rw [if_pos rfl, if_pos rfl]
        exact hf b old rfl hold hcounted
      · rw [if_neg hbc, if_neg fun hsome => hbc (Option.some.inj hsome)]
        exact hcounted

lemma Counts.join (hs : s.Counts C) (hptr : s.handles.ptr h = none)
    (hf : ∀ obj n, 0 < n → C obj n → C (f obj) (n + 1)) (g : ι) : (s.join f h g).Counts C :=
  hs.attach hptr (fun b hg => (hs.live g b hg).2) fun _ obj hg _ =>
    hf obj _ (hs.pointsTo hg).holders_pos

lemma Counts.create (hs : s.Counts C) (hptr : s.handles.ptr h = none) (hobj : C obj 1) :
    (s.create h obj).Counts C := by
  refine hs.point (by simp) (by simp) fun c new hc => ?_
  rw [others_of_none hptr]
  rw [List.getElem?_append] at hc
  split_ifs at hc with hlt
  · rw [if_neg fun hsome => hlt.ne' (Option.some.inj hsome)]
    exact hs.counted c new hc
  · obtain ⟨hzero, rfl⟩ : c - s.objects.length = 0 ∧ obj = new := by
      simpa [List.getElem?_singleton] using hc
    obtain rfl : s.objects.length = c := by omega
    rw [hs.holders_length, if_pos rfl]
    exact hobj

lemma Counts.destroy (hs : s.Counts C) (hptr : s.handles.ptr h = none) :
    (s.destroy h).Counts C := by
  refine ⟨fun g b hg => ?_, fun b obj hb => ?_⟩
  · by_cases hgh : g = h
    · subst hgh
      cases Handles.drop_ptr_self.symm.trans hg
    · have hold : s.handles.ptr g = some b := (Handles.drop_ptr_of_ne hgh).symm.trans hg
      exact ⟨Finset.mem_erase.2 ⟨hgh, (hs.live g b hold).1⟩, (hs.live g b hold).2⟩
  · show C obj ((s.handles.drop h).holders b)
    rw [Handles.holders_drop, others_of_none hptr]
    exact hs.counted b obj hb

/-! ### What the handles see -/

lemma leave_ptr_self : (s.leave f h).handles.ptr h = none := by
  rw [leave]
  split
  · assumption
  · exact Handles.point_ptr_self

lemma leave_ptr_of_ne (hne : g ≠ h) : (s.leave f h).handles.ptr g = s.handles.ptr g := by
  rw [leave]
  split
  · rfl
  · exact Handles.point_ptr_of_ne hne

lemma view_leave_of_ne (hf : ∀ obj, v (f obj) = v obj) (hne : g ≠ h) :
    (s.leave f h).view v g = s.view v g := by
  refine view_congr (leave_ptr_of_ne hne) fun b _ => ?_
  rw [leave]
  split
  · rfl
  · exact map_modify hf ..

/-- The object that a handle is attached to does not look different. -/
lemma map_attach (hf : ∀ obj, v (f obj) = v obj) {p : Option ℕ} :
    ((s.attach f h p).objects[b]?).map v = (s.objects[b]?).map v := by
  cases p with
  | none => rfl
  | some c => exact map_modify hf ..

lemma view_join_self (hf : ∀ obj, v (f obj) = v obj) : (s.join f h g).view v h = s.view v g :=
  view_congr Handles.point_ptr_self fun _ _ => map_attach hf

lemma view_join_of_ne (hf : ∀ obj, v (f obj) = v obj) {i : ι} (hne : i ≠ h) :
    (s.join f h g).view v i = s.view v i :=
  view_congr (Handles.point_ptr_of_ne hne) fun _ _ => map_attach hf

lemma view_create_self : (s.create h obj).view v h = some (v obj) := by
  rw [view, create, Handles.point_ptr_self]
  simp

lemma view_create_of_ne (hs : s.Counts C) (hne : g ≠ h) :
    (s.create h obj).view v g = s.view v g := by
  refine view_congr (Handles.point_ptr_of_ne hne) fun b hb => ?_
  rw [create, List.getElem?_append_left (hs.live g b hb).2]

lemma view_construct_of_ne (hne : g ≠ h) : (s.construct h).view v g = s.view v g :=
  view_congr (Handles.point_ptr_of_ne hne) fun _ _ => rfl

lemma view_destroy_of_ne (hne : g ≠ h) : (s.destroy h).view v g = s.view v g :=
  view_congr (Handles.drop_ptr_of_ne hne) fun _ _ => rfl

end Shared

end PionCore.Lib
