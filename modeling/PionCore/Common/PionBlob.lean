/-
# Blobs

`PionBlob`: handles that share blocks of memory.  A block counts the copies of the first handle,
and is freed when the last handle leaves it.
-/
import PionCore.Lib.Ascii
import PionCore.Lib.Runs
import PionCore.Lib.Shared

namespace PionCore.Common

open PionCore.Lib

/-- A block: `BlobData` with its payload, the size that was allocated for it, and the sizes that it
was freed with. -/
structure BlobData where
  allocated : ℕ
  content : Bytes
  copies : ℕ := 0
  freedWith : List ℕ := []

namespace BlobData

/-- The size of a block, where `header` is that of the metadata. -/
def size (header : ℕ) (block : BlobData) : ℕ := block.content.length + header + 1

/-- A new block, with the payload already copied. -/
def create (header : ℕ) (bytes : Bytes) : BlobData where
  allocated := bytes.length + header + 1
  content := bytes

/-- A handle leaves the block. -/
def release (header : ℕ) (block : BlobData) : BlobData :=
  if block.copies = 0 then { block with freedWith := block.freedWith ++ [block.size header] }
  else { block with copies := block.copies - 1 }

def grab (block : BlobData) : BlobData := { block with copies := block.copies + 1 }

/-- What a block of `n` handles is like: it was freed once, with the size that was allocated, or it
is not freed and counts its handles. -/
def Counted (block : BlobData) (n : ℕ) : Prop :=
  if n = 0 then block.freedWith = [block.allocated]
  else block.freedWith = [] ∧ block.copies + 1 = n

/-- A block that is freed with its own size is freed with the size that was allocated. -/
def Sized (header : ℕ) (block : BlobData) (n : ℕ) : Prop :=
  block.allocated = block.size header ∧ block.Counted n

variable {header n : ℕ} {block : BlobData}

lemma release_content : (block.release header).content = block.content := by
  rw [release]
  split_ifs <;> rfl

lemma grab_content : block.grab.content = block.content := rfl

lemma release_allocated : (block.release header).allocated = block.allocated := by
  rw [release]
  split_ifs <;> rfl

lemma Sized.create (bytes : Bytes) : (BlobData.create header bytes).Sized header 1 :=
  ⟨rfl, rfl, rfl⟩

lemma Sized.release (h : block.Sized header (n + 1)) : (block.release header).Sized header n := by
  obtain ⟨hsize, hfreed, hcopies⟩ := h
  refine ⟨?_, ?_⟩
  · rw [release_allocated, size, release_content]
    exact hsize
  · rw [BlobData.release]
    by_cases hzero : block.copies = 0
    · obtain rfl : n = 0 := by omega
      rw [if_pos hzero]
      show block.freedWith ++ [block.size header] = [block.allocated]
      rw [hfreed, hsize]
      rfl
    · rw [if_neg hzero, Counted, if_neg (by omega)]
      refine ⟨hfreed, ?_⟩
      show block.copies - 1 + 1 = n
      omega

lemma Sized.grab (hpos : 0 < n) (h : block.Sized header n) : block.grab.Sized header (n + 1) := by
  obtain ⟨hsize, hcounted⟩ := h
  rw [Counted, if_neg (Nat.pos_iff_ne_zero.1 hpos)] at hcounted
  refine ⟨hsize, ?_⟩
  rw [Counted, if_neg (Nat.succ_ne_zero n)]
  exact ⟨hcounted.1, congrArg (· + 1) hcounted.2⟩

end BlobData

/-- The handles and the blocks. -/
abbrev PionBlobs (ι : Type*) := Shared ι BlobData

/-- The operations on a handle. -/
inductive BlobEvent (ι : Type*) where
  | construct (h : ι)
  | constructFrom (h : ι) (bytes : Bytes)
  | copyConstruct (h g : ι)
  | assign (h g : ι)
  /-- any of the overloads of `set`, with the bytes of the buffer or the string -/
  | set (h : ι) (bytes : Bytes)
  /-- `reset` and `clear` -/
  | reset (h : ι)
  | destroy (h : ι)

/-- The handle that an operation is called on. -/
def BlobEvent.handle {ι : Type*} : BlobEvent ι → ι
  | construct h | constructFrom h _ | copyConstruct h _ | assign h _ | set h _ | reset h
  | destroy h => h

namespace PionBlobs

variable {ι : Type*} {header : ℕ} {s : PionBlobs ι} {h g : ι}

/-- The content of a handle. -/
def content (s : PionBlobs ι) (h : ι) : Bytes := (s.view BlobData.content h).getD []

lemma content_of_none (hptr : s.handles.ptr h = none) : content s h = [] := by
  rw [content, Shared.view_of_none hptr]
  rfl

/-- Every block counts its handles, and is freed once, when it has none. -/
def Sound (header : ℕ) (s : PionBlobs ι) : Prop := s.Counts (BlobData.Sized header)

/-- What an operation is to do: the handle has the content that it is given, and no other handle
sees a change. -/
def Keeps (e : BlobEvent ι) (s s' : PionBlobs ι) : Prop :=
  (∀ g, g ≠ e.handle → content s' g = content s g) ∧
    match e with
    | .construct h | .reset h | .destroy h => content s' h = []
    | .constructFrom h bytes | .set h bytes => content s' h = bytes
    | .copyConstruct h g | .assign h g => content s' h = content s g

/-- A handle is assigned to itself only if it is empty. -/
def OthersAssigned (e : BlobEvent ι) (s : PionBlobs ι) : Prop :=
  match e with
  | .assign h g => h = g → content s h = []
  | .construct _ | .constructFrom _ _ | .copyConstruct _ _ | .set _ _ | .reset _ | .destroy _ => True

variable [DecidableEq ι]

def step (header : ℕ) (s : PionBlobs ι) : BlobEvent ι → Option (PionBlobs ι)
  | .construct h => if h ∈ s.handles.live then none else some (s.construct h)
  | .constructFrom h bytes =>
      if h ∈ s.handles.live then none else some (s.create h (.create header bytes))
  | .copyConstruct h g =>
      if h ∈ s.handles.live ∨ g ∉ s.handles.live then none else some (s.join .grab h g)
  | .assign h g =>
      if h ∈ s.handles.live ∧ g ∈ s.handles.live then
        some ((s.leave (.release header) h).join .grab h g)
      else none
  | .set h bytes =>
      if h ∈ s.handles.live then
        some ((s.leave (.release header) h).create h (.create header bytes))
      else none
  | .reset h => if h ∈ s.handles.live then some (s.leave (.release header) h) else none
  | .destroy h =>
      if h ∈ s.handles.live then some ((s.leave (.release header) h).destroy h) else none

/-! ### One operation -/

lemma Sound.release (hs : Sound header s) (h : ι) :
    Sound header (s.leave (BlobData.release header) h) :=
  Shared.Counts.leave hs fun _ _ _ _ hcounted => hcounted.release

lemma Sound.grab (hs : Sound header s) (hptr : s.handles.ptr h = none) (g : ι) :
    Sound header (s.join BlobData.grab h g) :=
  Shared.Counts.join hs hptr (fun _ _ => BlobData.Sized.grab) g

lemma Sound.next (hs : Sound header s) {e : BlobEvent ι} {s' : PionBlobs ι}
    (hstep : step header s e = some s') : Sound header s' := by
  cases e with
  | construct h =>
    obtain ⟨hlive, ⟨⟩⟩ := Option.ite_none_left_eq_some.1 hstep
    exact Shared.Counts.construct hs (hs.ptr_of_not_live hlive)
  | constructFrom h bytes =>
    obtain ⟨hlive, ⟨⟩⟩ := Option.ite_none_left_eq_some.1 hstep
    exact Shared.Counts.create hs (hs.ptr_of_not_live hlive) (BlobData.Sized.create bytes)
  | copyConstruct h g =>
    obtain ⟨hlive, ⟨⟩⟩ := Option.ite_none_left_eq_some.1 hstep
    exact hs.grab (hs.ptr_of_not_live fun hmem => hlive (Or.inl hmem)) g
  | assign h g =>
    obtain ⟨-, ⟨⟩⟩ := Option.ite_none_right_eq_some.1 hstep
    exact (hs.release h).grab Shared.leave_ptr_self g
  | set h bytes =>
    obtain ⟨-, ⟨⟩⟩ := Option.ite_none_right_eq_some.1 hstep
    exact Shared.Counts.create (hs.release h) Shared.leave_ptr_self (BlobData.Sized.create bytes)
  | reset h =>
    obtain ⟨-, ⟨⟩⟩ := Option.ite_none_right_eq_some.1 hstep
    exact hs.release h
  | destroy h =>
    obtain ⟨-, ⟨⟩⟩ := Option.ite_none_right_eq_some.1 hstep
    exact Shared.Counts.destroy (hs.release h) Shared.leave_ptr_self

lemma content_release_of_ne (hne : g ≠ h) :
    content (s.leave (BlobData.release header) h) g = content s g := by
  rw [content, Shared.view_leave_of_ne (fun _ => BlobData.release_content) hne, content]

lemma content_grab_self : content (s.join BlobData.grab h g) h = content s g := by
  rw [content, Shared.view_join_self fun _ => BlobData.grab_content, content]

lemma content_grab_of_ne {i : ι} (hne : i ≠ h) :
    content (s.join BlobData.grab h g) i = content s i := by
  rw [content, Shared.view_join_of_ne (fun _ => BlobData.grab_content) hne, content]

lemma content_create_self {bytes : Bytes} :
    content (s.create h (BlobData.create header bytes)) h = bytes := by
  rw [content, Shared.view_create_self]
  rfl

lemma content_create_of_ne (hs : Sound header s) {bytes : Bytes} (hne : g ≠ h) :
    content (s.create h (BlobData.create header bytes)) g = content s g := by
  rw [content, Shared.view_create_of_ne hs hne, content]

/-- Only the assignment of a handle to itself does not keep the content. -/
lemma keeps_iff (hs : Sound header s) {e : BlobEvent ι} {s' : PionBlobs ι}
    (hstep : step header s e = some s') : Keeps e s s' ↔ OthersAssigned e s := by
  cases e with
  | construct h =>
    obtain ⟨-, ⟨⟩⟩ := Option.ite_none_left_eq_some.1 hstep
    refine iff_of_true ⟨fun g hne => ?_, content_of_none Handles.point_ptr_self⟩ trivial
    exact congrArg (Option.getD · []) (Shared.view_construct_of_ne hne)
  | constructFrom h bytes =>
    obtain ⟨-, ⟨⟩⟩ := Option.ite_none_left_eq_some.1 hstep
    exact iff_of_true ⟨fun g hne => content_create_of_ne hs hne, content_create_self⟩ trivial
  | copyConstruct h g =>
    obtain ⟨-, ⟨⟩⟩ := Option.ite_none_left_eq_some.1 hstep
    exact iff_of_true ⟨fun i hne => content_grab_of_ne hne, content_grab_self⟩ trivial
  | assign h g =>
    obtain ⟨-, ⟨⟩⟩ := Option.ite_none_right_eq_some.1 hstep
    have hothers : ∀ i, i ≠ h →
        content ((s.leave (BlobData.release header) h).join BlobData.grab h g) i = content s i :=
      fun i hne => (content_grab_of_ne hne).trans (content_release_of_ne hne)
    refine (and_iff_right hothers).trans ?_
    -- the handle gets what the other one holds after the release
    show content ((s.leave (BlobData.release header) h).join BlobData.grab h g) h = content s g ↔
      (h = g → content s h = [])
    rw [content_grab_self]
    by_cases hgh : g = h
    · subst hgh
      rw [content_of_none Shared.leave_ptr_self, eq_comm]
      exact ⟨fun hempty _ => hempty, fun hempty => hempty rfl⟩
    · exact iff_of_true (content_release_of_ne hgh) fun heq => absurd heq.symm hgh
  | set h bytes =>
    obtain ⟨-, ⟨⟩⟩ := Option.ite_none_right_eq_some.1 hstep
    refine iff_of_true ⟨fun g hne => ?_, content_create_self⟩ trivial
    exact (content_create_of_ne (hs.release h) hne).trans (content_release_of_ne hne)
  | reset h =>
    obtain ⟨-, ⟨⟩⟩ := Option.ite_none_right_eq_some.1 hstep
    refine iff_of_true ⟨fun g hne => content_release_of_ne hne, ?_⟩ trivial
    exact content_of_none Shared.leave_ptr_self
  | destroy h =>
    obtain ⟨-, ⟨⟩⟩ := Option.ite_none_right_eq_some.1 hstep
    refine iff_of_true ⟨fun g hne => ?_, content_of_none Handles.drop_ptr_self⟩ trivial
    refine Eq.trans (congrArg (Option.getD · []) (Shared.view_destroy_of_ne hne)) ?_
    exact content_release_of_ne hne

/-! ### Whole runs -/

/-- In a run, the blocks count their handles and are freed once, and every operation does what it
is to do, if and only if no handle with a content is assigned to itself. -/
theorem blobs_sound_iff (header : ℕ) {s : PionBlobs ι} {es : List (BlobEvent ι)}
    (h : run (step header) {} es = some s) :
    ((∀ u, ReachedIn (step header) {} es u → Sound header u) ∧
        ∀ e u u', HappensIn (step header) {} es e u → step header u e = some u' → Keeps e u u') ↔
      ∀ e u, HappensIn (step header) {} es e u → OthersAssigned e u := by
  refine steps_iff (P := Sound header) (K := Keeps) (Q := OthersAssigned) Shared.counts_start ?_ h
  intro u e u' hu hstep
  rw [and_iff_right (hu.next hstep)]
  exact keeps_iff hu hstep

/-- A blob is copied and assigned, and both handles let go of the block. -/
theorem blobs_sound_iff_shared :
    let events := [.constructFrom 0 [1, 2], .copyConstruct 1 0, .assign 1 0, .reset 0, .destroy 1]
    let start : PionBlobs ℕ := {}
    (run (step 16) start events).map (fun s => s.objects.map BlobData.freedWith) = some [[19]] ∧
      (((∀ u, ReachedIn (step 16) start events u → Sound 16 u) ∧
          ∀ e u u', HappensIn (step 16) start events e u → step 16 u e = some u' → Keeps e u u') ↔
        ∀ e u, HappensIn (step 16) start events e u → OthersAssigned e u) := by
  intro events start
  have hrun : (run (step 16) start events).map (fun s => s.objects.map BlobData.freedWith) =
      some [[19]] := by
    decide +kernel
  obtain ⟨s, hs, -⟩ := Option.map_eq_some_iff.1 hrun
  exact ⟨hrun, blobs_sound_iff 16 hs⟩

/-- A handle that is assigned to itself loses its block. -/
theorem blobs_sound_iff_fails :
    let start : PionBlobs ℕ := {}
    (run (step 16) start [.constructFrom 0 [1, 2]]).map (fun s => content s 0) = some [1, 2] ∧
    (run (step 16) start [.constructFrom 0 [1, 2], .assign 0 0]).map
      (fun s => (content s 0, s.objects.map BlobData.freedWith)) = some ([], [[19]]) := by
  decide +kernel

end PionBlobs

end PionCore.Common
