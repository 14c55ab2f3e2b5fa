/-
# Event pointers

`EventPtr`: handles that share events, and the reference count of an event, which
`removeReference` returns as an unsigned number of 32 bits.  The parameters of an event are left
out, so that to clear an event in its place changes nothing here.
-/
import PionCore.Lib.Runs
import PionCore.Lib.Shared
import Mathlib.Algebra.Group.Nat.Defs

namespace PionCore.Platform

open PionCore.Lib

/-- An event, and how many times it was destroyed. -/
structure EventRecord where
  eventType : ℕ
  references : ℕ := 0
  destroyed : ℕ := 0

namespace EventRecord

def getReferences (event : EventRecord) : ℕ := event.references % 2 ^ 32

def addReference (event : EventRecord) : EventRecord :=
  { event with references := event.references + 1 }

/-- `removeReference`, and the destruction of the event by the handle that called it. -/
def removeReference (event : EventRecord) : EventRecord :=
  if (event.references - 1) % 2 ^ 32 = 0 then
    { event with references := event.references - 1, destroyed := event.destroyed + 1 }
  else { event with references := event.references - 1 }

/-- What an event of `n` handles is like: it counts them, and is destroyed if there are none. -/
def Counted (event : EventRecord) (n : ℕ) : Prop :=
  event.references = n ∧ event.destroyed = if n = 0 then 1 else 0

variable {n : ℕ} {event : EventRecord}

lemma Counted.addReference (hpos : 0 < n) (h : event.Counted n) :
    event.addReference.Counted (n + 1) := by
  obtain ⟨hreferences, hdestroyed⟩ := h
  rw [if_neg (Nat.pos_iff_ne_zero.1 hpos)] at hdestroyed
  refine ⟨congrArg (· + 1) hreferences, ?_⟩
  rw [if_neg (Nat.succ_ne_zero n)]
  exact hdestroyed

/-- The number of the handles that are left is not taken for zero. -/
lemma Counted.removeReference (h : event.Counted (n + 1)) (hn : n % 2 ^ 32 = 0 → n = 0) :
    event.removeReference.Counted n := by
  obtain ⟨hreferences, hdestroyed⟩ := h
  have hleft : event.references - 1 = n := by omega
  rw [if_neg (Nat.succ_ne_zero n)] at hdestroyed
  rw [EventRecord.removeReference, hleft]
  by_cases hzero : n = 0
  · subst hzero
    rw [if_pos (Nat.zero_mod _)]
    exact ⟨rfl, congrArg (· + 1) hdestroyed⟩
  · rw [if_neg (mt hn hzero)]
    refine ⟨rfl, ?_⟩
    rw [if_neg hzero]
    exact hdestroyed

/-- The number of the handles that are left is taken for zero. -/
lemma destroyed_removeReference (h : event.Counted (n + 1)) (hn : n % 2 ^ 32 = 0) :
    0 < event.removeReference.destroyed := by
  have hleft : event.references - 1 = n := by
    have hreferences := h.1
    omega
  rw [removeReference, hleft, if_pos hn]
  exact Nat.succ_pos _

end EventRecord

/-- The handles and the events. -/
abbrev EventPtrs (ι : Type*) := Shared ι EventRecord

/-- The operations on a handle. -/
inductive EventPtrEvent (ι : Type*) where
  | construct (h : ι)
  /-- a handle is made by `EventFactory::create` -/
  | constructFrom (h : ι) (t : ℕ)
  | copyConstruct (h g : ι)
  /-- `operator=`, and `reset` with another handle -/
  | assign (h g : ι)
  /-- `EventFactory::create` with a handle -/
  | create (h : ι) (t : ℕ)
  | reset (h : ι)
  | destroy (h : ι)

namespace EventPtrs

variable {ι : Type*} {s : EventPtrs ι} {h g : ι} {b : ℕ}

/-- Every event counts its handles, and is destroyed when it has none. -/
def Sound (s : EventPtrs ι) : Prop := s.Counts EventRecord.Counted

/-- The handle points to an event that was not destroyed. -/
def Alive (s : EventPtrs ι) (h : ι) : Prop :=
  s.view EventRecord.destroyed h = some 0

/-- `is_safe`, and the type of the event. -/
def isSafe (s : EventPtrs ι) (h : ι) (t : ℕ) : Bool :=
  s.view (fun event => (event.getReferences, event.eventType)) h = some (1, t)

/-- After an assignment, the handle points where the other one did, to an event that is alive. -/
def Assigns (e : EventPtrEvent ι) (s s' : EventPtrs ι) : Prop :=
  match e with
  | .assign h g =>
      s'.handles.ptr h = s.handles.ptr g ∧ (s.handles.ptr g ≠ none → Alive s' h)
  | .construct _ | .constructFrom _ _ | .copyConstruct _ _ | .create _ _ | .reset _
  | .destroy _ => True

/-- A handle that points to an event keeps it alive. -/
lemma Sound.alive (hs : Sound s) (hptr : s.handles.ptr h = some b) : Alive s h := by
  obtain ⟨event, hevent⟩ := Shared.Counts.object hs hptr
  have hdestroyed := (hs.counted b event hevent).2
  rw [if_neg (Nat.pos_iff_ne_zero.1 (Shared.Counts.pointsTo hs hptr).holders_pos)] at hdestroyed
  rw [Alive, Shared.view, hptr, Option.bind_some, hevent]
  exact congrArg some hdestroyed

variable [DecidableEq ι]

/-- The handle leaves its event. -/
def release (s : EventPtrs ι) (h : ι) : EventPtrs ι := s.leave .removeReference h

/-- A new event, with the handle that `EventFactory::create` returns. -/
def newEvent (t : ℕ) : EventRecord := EventRecord.addReference { eventType := t }

def step (s : EventPtrs ι) : EventPtrEvent ι → Option (EventPtrs ι)
  | .construct h => if h ∈ s.handles.live then none else some (s.construct h)
  | .constructFrom h t => if h ∈ s.handles.live then none else some (s.create h (newEvent t))
  | .copyConstruct h g =>
      if h ∈ s.handles.live ∨ g ∉ s.handles.live then none else some (s.join .addReference h g)
  | .assign h g =>
      if h ∈ s.handles.live ∧ g ∈ s.handles.live then
        some ((release s h).join .addReference h g)
      else none
  | .create h t =>
      if h ∈ s.handles.live then
        if isSafe s h t then some s
        -- the handle that `create` returns is assigned, and destroyed
        else some ((release s h).create h (newEvent t).addReference.removeReference)
      else none
  | .reset h => if h ∈ s.handles.live then some (release s h) else none
  | .destroy h => if h ∈ s.handles.live then some ((release s h).destroy h) else none

/-- The number of the other handles of its event, if there are any, is not taken for zero. -/
def FewLeft (s : EventPtrs ι) (h : ι) : Prop :=
  ∀ b, s.handles.ptr h = some b → s.handles.others h b % 2 ^ 32 = 0 → s.handles.others h b = 0

/-- A handle is assigned to itself only if it is null, and no handle leaves too many others. -/
def Meets (e : EventPtrEvent ι) (s : EventPtrs ι) : Prop :=
  match e with
  | .assign h g => (h = g → s.handles.ptr h = none) ∧ FewLeft s h
  | .create h t => isSafe s h t = false → FewLeft s h
  | .reset h | .destroy h => FewLeft s h
  | .construct _ | .constructFrom _ _ | .copyConstruct _ _ => True

/-! ### A handle leaves its event -/

lemma Sound.release (hs : Sound s) (hfew : FewLeft s h) : Sound (release s h) :=
  Shared.Counts.leave hs fun b _ hptr _ hcounted => hcounted.removeReference (hfew b hptr)

lemma Sound.addReference (hs : Sound s) (hptr : s.handles.ptr h = none) (g : ι) :
    Sound (s.join EventRecord.addReference h g) :=
  Shared.Counts.join hs hptr (fun _ _ => EventRecord.Counted.addReference) g

/-- An event that is destroyed while another handle than `h` points to it. -/
def DestroyedEarly (s : EventPtrs ι) (h : ι) : Prop :=
  ∃ b event, s.objects[b]? = some event ∧ 0 < event.destroyed ∧ 0 < s.handles.others h b

/-- Wherever the handle goes, the event stays destroyed. -/
lemma DestroyedEarly.not_sound {t : EventPtrs ι} (hearly : DestroyedEarly s h)
    (hobjects : ∀ b, b < s.objects.length →
      (t.objects[b]?).map EventRecord.destroyed = (s.objects[b]?).map EventRecord.destroyed)
    (hothers : ∀ b, t.handles.others h b = s.handles.others h b) : ¬ Sound t := by
  obtain ⟨b, event, hevent, hdestroyed, hpos⟩ := hearly
  intro ht
  have hsame := hobjects b (List.getElem?_eq_some_iff.1 hevent).1
  rw [hevent, Option.map_some, Option.map_eq_some_iff] at hsame
  obtain ⟨later, hlater, heq⟩ := hsame
  have hholders : 0 < t.handles.holders b := by
    rw [← hothers b] at hpos
    by_cases hpoints : t.handles.PointsTo h b
    · exact hpoints.holders_pos
    · rwa [← Handles.others_of_not_pointsTo hpoints]
  have hcounted := (ht.counted b later hlater).2
  rw [if_neg (Nat.pos_iff_ne_zero.1 hholders)] at hcounted
  omega

lemma destroyedEarly_release (hs : Sound s) (hfew : ¬ FewLeft s h) :
    DestroyedEarly (release s h) h := by
  simp only [FewLeft, not_forall] at hfew
  obtain ⟨b, hptr, hmod, hpos⟩ := hfew
  obtain ⟨event, hevent⟩ := Shared.Counts.object hs hptr
  have hcounted := hs.counted b event hevent
  rw [← Handles.others_of_pointsTo (Shared.Counts.pointsTo hs hptr)] at hcounted
  refine ⟨b, event.removeReference, ?_, EventRecord.destroyed_removeReference hcounted hmod, ?_⟩
  · rw [release, Shared.leave, hptr]
    simp [hevent]
  · rw [release, Shared.leave, hptr]
    show 0 < (s.handles.point h none).others h b
    rw [Handles.others_point]
    exact Nat.pos_of_ne_zero hpos

/-! ### One operation -/

lemma sound_reset_iff (hs : Sound s) : Sound (release s h) ↔ FewLeft s h := by
  refine ⟨fun hsound => ?_, hs.release⟩
  by_contra hfew
  exact (destroyedEarly_release hs hfew).not_sound (fun _ _ => rfl) (fun _ => rfl) hsound

lemma sound_destroy_iff (hs : Sound s) : Sound ((release s h).destroy h) ↔ FewLeft s h := by
  refine ⟨fun hsound => ?_, fun hfew => ?_⟩
  · by_contra hfew
    refine (destroyedEarly_release hs hfew).not_sound (t := (release s h).destroy h)
      (fun _ _ => rfl) (fun b => ?_) hsound
    exact Handles.others_congr (by simp [Shared.destroy]) fun _ hne => Handles.drop_ptr_of_ne hne
  · exact Shared.Counts.destroy (hs.release hfew) Shared.leave_ptr_self

lemma sound_create_iff (hs : Sound s) (t : ℕ) :
    Sound ((release s h).create h (newEvent t).addReference.removeReference) ↔ FewLeft s h := by
  refine ⟨fun hsound => ?_, fun hfew => ?_⟩
  · by_contra hfew
    refine (destroyedEarly_release hs hfew).not_sound (fun b hlt => ?_) (fun b => ?_) hsound
    · rw [Shared.create, List.getElem?_append_left hlt]
    · exact Handles.others_point
  · exact Shared.Counts.create (hs.release hfew) Shared.leave_ptr_self ⟨rfl, rfl⟩

lemma sound_assign_iff (hs : Sound s) (g : ι) :
    Sound ((release s h).join EventRecord.addReference h g) ↔ FewLeft s h := by
  refine ⟨fun hsound => ?_, fun hfew => ?_⟩
  · by_contra hfew
    refine (destroyedEarly_release hs hfew).not_sound (fun b _ => ?_) (fun b => ?_) hsound
    · exact Shared.map_attach (f := EventRecord.addReference) fun _ => rfl
    · exact Handles.others_point
  · exact (hs.release hfew).addReference Shared.leave_ptr_self g

/-- A handle that is assigned to itself is null. -/
lemma ptr_assign_iff (g : ι) : ((release s h).join EventRecord.addReference h g).handles.ptr h =
    s.handles.ptr g ↔ (h = g → s.handles.ptr h = none) := by
  have hjoin : ((release s h).join EventRecord.addReference h g).handles.ptr h =
      (release s h).handles.ptr g := Handles.point_ptr_self
  rw [hjoin]
  by_cases hgh : g = h
  · subst hgh
    rw [release, Shared.leave_ptr_self, eq_comm]
    exact ⟨fun hnone _ => hnone, fun hnone => hnone rfl⟩
  · exact iff_of_true (Shared.leave_ptr_of_ne hgh) fun heq => absurd heq.symm hgh

/-- What an operation needs for the counts, and for an assignment. -/
lemma sound_step_iff (hs : Sound s) {e : EventPtrEvent ι} {s' : EventPtrs ι}
    (hstep : step s e = some s') : Sound s' ∧ Assigns e s s' ↔ Meets e s := by
  cases e with
  | construct h =>
    obtain ⟨hlive, ⟨⟩⟩ := Option.ite_none_left_eq_some.1 hstep
    exact iff_of_true ⟨Shared.Counts.construct hs (hs.ptr_of_not_live hlive), trivial⟩ trivial
  | constructFrom h t =>
    obtain ⟨hlive, ⟨⟩⟩ := Option.ite_none_left_eq_some.1 hstep
    have hcreate : Sound (s.create h (newEvent t)) :=
      Shared.Counts.create hs (hs.ptr_of_not_live hlive) ⟨rfl, rfl⟩
    exact iff_of_true ⟨hcreate, trivial⟩ trivial
  | copyConstruct h g =>
    obtain ⟨hlive, ⟨⟩⟩ := Option.ite_none_left_eq_some.1 hstep
    have hptr : s.handles.ptr h = none := hs.ptr_of_not_live fun hmem => hlive (Or.inl hmem)
    exact iff_of_true ⟨hs.addReference hptr g, trivial⟩ trivial
  | assign h g =>
    obtain ⟨-, ⟨⟩⟩ := Option.ite_none_right_eq_some.1 hstep
    constructor
    · rintro ⟨hsound, hptr, -⟩
      exact ⟨(ptr_assign_iff g).1 hptr, (sound_assign_iff hs g).1 hsound⟩
    · rintro ⟨hself, hfew⟩
      have hptr := (ptr_assign_iff g).2 hself
      have hsound := (sound_assign_iff hs g).2 hfew
      refine ⟨hsound, hptr, fun hsome => ?_⟩
      obtain ⟨b, hb⟩ := Option.ne_none_iff_exists'.1 hsome
      exact hsound.alive (hptr.trans hb)
  | create h t =>
    obtain ⟨-, hcreate⟩ := Option.ite_none_right_eq_some.1 hstep
    cases hsafe : isSafe s h t with
    | true =>
      obtain rfl : s = s' := by simpa [hsafe] using hcreate
      exact iff_of_true ⟨hs, trivial⟩ fun hfalse => absurd (hsafe.symm.trans hfalse) (by simp)
    | false =>
      obtain rfl : (release s h).create h (newEvent t).addReference.removeReference = s' := by
        simpa [hsafe] using hcreate
      show _ ∧ True ↔ (isSafe s h t = false → FewLeft s h)
      rw [and_true, sound_create_iff hs t]
      exact ⟨fun hfew _ => hfew, fun hfew => hfew hsafe⟩
  | reset h =>
    obtain ⟨-, ⟨⟩⟩ := Option.ite_none_right_eq_some.1 hstep
    exact (and_iff_left trivial).trans (sound_reset_iff hs)
  | destroy h =>
    obtain ⟨-, ⟨⟩⟩ := Option.ite_none_right_eq_some.1 hstep
    exact (and_iff_left trivial).trans (sound_destroy_iff hs)

/-! ### Whole runs -/

/-- In a run, the events count their handles and are destroyed with the last one, and every
assignment has its handle point to the event of the other one, if and only if only null handles
are assigned to themselves, and no handle leaves so many others that they are taken for none. -/
theorem references_iff {s : EventPtrs ι} {es : List (EventPtrEvent ι)}
    (h : run step {} es = some s) :
    ((∀ u : EventPtrs ι, ReachedIn step {} es u → Sound u) ∧
        ∀ e u u', HappensIn step {} es e u → step u e = some u' → Assigns e u u') ↔
      ∀ e u, HappensIn step {} es e u → Meets e u := by
  refine steps_iff (P := Sound) (K := Assigns) (Q := Meets) Shared.counts_start ?_ h
  intro u e u' hu hstep
  exact sound_step_iff hu hstep

/-- An event is copied, its first handle is assigned another event, and the copy lets go. -/
theorem references_iff_shared :
    let events := [.constructFrom 0 7, .copyConstruct 1 0, .constructFrom 2 8, .assign 0 2,
      .create 2 8, .reset 1]
    let start : EventPtrs ℕ := {}
    (run step start events).map
        (fun s => s.objects.map fun event => (event.references, event.destroyed)) =
          some [(0, 1), (1, 0), (1, 0)] ∧
      (((∀ u, ReachedIn step start events u → Sound u) ∧
          ∀ e u u', HappensIn step start events e u → step u e = some u' → Assigns e u u') ↔
        ∀ e u, HappensIn step start events e u → Meets e u) := by
  intro events start
  have hrun : (run step start events).map
      (fun s => s.objects.map fun event => (event.references, event.destroyed)) =
        some [(0, 1), (1, 0), (1, 0)] := by
    decide +kernel
  obtain ⟨s, hs, -⟩ := Option.map_eq_some_iff.1 hrun
  exact ⟨hrun, references_iff hs⟩

/-- A handle that is assigned to itself loses its event. -/
theorem references_iff_fails :
    let start : EventPtrs ℕ := {}
    (run step start [.constructFrom 0 7]).map (fun s => s.handles.ptr 0) = some (some 0) ∧
    (run step start [.constructFrom 0 7, .assign 0 0]).map
      (fun s => (s.handles.ptr 0, s.objects.map EventRecord.destroyed)) = some (none, [1]) := by
  decide +kernel

end EventPtrs

end PionCore.Platform
