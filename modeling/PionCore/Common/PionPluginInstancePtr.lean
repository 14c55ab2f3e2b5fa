/-
# Instances of plug-ins

`PionPluginInstancePtr`: a pointer to an object that a plug-in library creates, with the handle of
that library.  `create` and `reset` destroy the object, but the pointer still points to it; only
an object that is created in its place makes up for that.

The handle of the pointer is `none`; the other handles of the process open and close libraries in
between, and share them with the pointer.
-/
import PionCore.Common.PionPlugin

namespace PionCore.Common

open PionCore.Lib

/-- The handles that an operation is about. -/
def PluginEvent.handles {ι : Type*} : PluginEvent ι → List ι
  | .construct h | .openName h _ _ _ | .openFile h _ _ | .close h | .destroy h => [h]
  | .copyConstruct h g | .assign h g => [h, g]
  | .addStaticEntryPoint _ _ _ => []

namespace PionPlugins

section Opening

variable {ι : Type*} [DecidableEq ι] (getPluginName : Bytes → Bytes)

/-- Whether `open` returns: it does not wait for the mutex, and does not throw. -/
def openReturns (s : PionPlugins ι) (h : ι) (pluginName : Bytes) (file : Option Bytes)
    (library : Option PluginLibrary) : Bool :=
  match s.pluginMap pluginName with
  | some _ => (s.shared.handles.ptr h).isNone
  | none =>
      match file with
      | none => false
      | some file =>
          ((s.releaseData false h).pluginMap (getPluginName file)).isSome || library.isSome

variable {getPluginName} {s s' : PionPlugins ι} {h g : ι} {pluginName : Bytes}
  {file : Option Bytes} {library : Option PluginLibrary}

/-- A thread that waits has changed nothing. -/
lemma Sound.openName (hs : s.Sound) (hwaits : s.waits = false) (h : ι) (pluginName : Bytes)
    (file : Option Bytes) (library : Option PluginLibrary) :
    (s.openName getPluginName h pluginName file library).Sound := by
  by_cases hopens : s.pluginMap pluginName ≠ none → s.shared.handles.ptr h = none
  · exact ((openName_iff hs hwaits).2 hopens).1
  · rw [Classical.not_imp] at hopens
    obtain ⟨hfound, hptr⟩ := hopens
    obtain ⟨b, hb⟩ := Option.ne_none_iff_exists'.1 hfound
    obtain ⟨c, hc⟩ := Option.ne_none_iff_exists'.1 hptr
    have hlocked : s.releaseData true h = { s with waits := true } := by
      rw [PionPlugins.releaseData, hc]
      rfl
    simp only [PionPlugins.openName, hb, hlocked, if_true]
    exact ⟨hs.counts, hs.named⟩

/-- `open` returns with a handle that is open. -/
lemma openName_of_returns (hs : s.Sound) (hwaits : s.waits = false)
    (hreturns : s.openReturns getPluginName h pluginName file library = true) :
    (s.openName getPluginName h pluginName file library).waits = false ∧
      ∃ b, (s.openName getPluginName h pluginName file library).shared.handles.ptr h = some b := by
  have hopens : s.pluginMap pluginName ≠ none → s.shared.handles.ptr h = none := by
    intro hfound
    obtain ⟨b, hb⟩ := Option.ne_none_iff_exists'.1 hfound
    simp only [openReturns, hb] at hreturns
    exact Option.isNone_iff_eq_none.1 hreturns
  refine ⟨((openName_iff hs hwaits).2 hopens).2, ?_⟩
  simp only [PionPlugins.openName]
  cases hfound : s.pluginMap pluginName with
  | some b =>
    have hptr := hopens (by rw [hfound]; simp)
    simp only [releaseData_of_none hptr, hwaits, Bool.false_eq_true, if_false]
    exact ⟨b, Handles.point_ptr_self⟩
  | none =>
    simp only [openReturns, hfound] at hreturns
    cases file with
    | none => cases hreturns
    | some file =>
      simp only [PionPlugins.openFile]
      cases hname : (s.releaseData false h).pluginMap (getPluginName file) with
      | some b => exact ⟨b, Handles.point_ptr_self⟩
      | none =>
        cases library with
        | none => simp [hname] at hreturns
        | some library => exact ⟨_, Handles.point_ptr_self⟩

/-! ### Other handles -/

lemma releaseData_ptr_of_ne {locked : Bool} (hne : g ≠ h) :
    (s.releaseData locked h).shared.handles.ptr g = s.shared.handles.ptr g := by
  rw [PionPlugins.releaseData]
  cases hptr : s.shared.handles.ptr h with
  | none => rfl
  | some b =>
    cases locked with
    | true => rfl
    | false => exact Shared.leave_ptr_of_ne hne

lemma grabEntry_ptr_of_ne {p : Option ℕ} (hne : g ≠ h) :
    (s.grabEntry h p).shared.handles.ptr g = s.shared.handles.ptr g :=
  Handles.point_ptr_of_ne hne

lemma openFile_ptr_of_ne {file : Bytes} (hne : g ≠ h) :
    (s.openFile getPluginName h file library).shared.handles.ptr g = s.shared.handles.ptr g := by
  simp only [PionPlugins.openFile]
  cases (s.releaseData false h).pluginMap (getPluginName file) with
  | some b => exact (grabEntry_ptr_of_ne hne).trans (releaseData_ptr_of_ne hne)
  | none =>
    cases library with
    | none => exact releaseData_ptr_of_ne hne
    | some library => exact (Handles.point_ptr_of_ne hne).trans (releaseData_ptr_of_ne hne)

lemma openName_ptr_of_ne (hne : g ≠ h) :
    (s.openName getPluginName h pluginName file library).shared.handles.ptr g =
      s.shared.handles.ptr g := by
  simp only [PionPlugins.openName]
  cases s.pluginMap pluginName with
  | some b =>
    cases (s.releaseData true h).waits with
    | true => exact releaseData_ptr_of_ne hne
    | false => exact (grabEntry_ptr_of_ne hne).trans (releaseData_ptr_of_ne hne)
  | none =>
    cases file with
    | none => rfl
    | some file => exact openFile_ptr_of_ne hne

/-- An operation keeps the handles that it is not about, and the entries are sound behind it. -/
lemma step_frame (hs : s.Sound) {e : PluginEvent ι} (hstep : step getPluginName s e = some s')
    (hg : g ∉ e.handles) :
    s'.Sound ∧ s'.shared.handles.ptr g = s.shared.handles.ptr g := by
  obtain ⟨hwaits, hoperate⟩ := Option.ite_none_left_eq_some.1 hstep
  rw [Bool.not_eq_true] at hwaits
  cases e with
  | construct h =>
    have hsound := ((sound_step_iff hs hwaits hstep).2 trivial).1
    obtain ⟨-, ⟨⟩⟩ := Option.ite_none_left_eq_some.1 hoperate
    exact ⟨hsound, Handles.point_ptr_of_ne (List.ne_of_not_mem_cons hg)⟩
  | openName h pluginName file library =>
    obtain ⟨-, ⟨⟩⟩ := Option.ite_none_right_eq_some.1 hoperate
    exact ⟨hs.openName hwaits h pluginName file library,
      openName_ptr_of_ne (List.ne_of_not_mem_cons hg)⟩
  | openFile h file library =>
    have hsound := ((sound_step_iff hs hwaits hstep).2 trivial).1
    obtain ⟨-, ⟨⟩⟩ := Option.ite_none_right_eq_some.1 hoperate
    exact ⟨hsound, openFile_ptr_of_ne (List.ne_of_not_mem_cons hg)⟩
  | close h =>
    have hsound := ((sound_step_iff hs hwaits hstep).2 trivial).1
    obtain ⟨-, ⟨⟩⟩ := Option.ite_none_right_eq_some.1 hoperate
    exact ⟨hsound, releaseData_ptr_of_ne (List.ne_of_not_mem_cons hg)⟩
  | copyConstruct h i =>
    have hsound := ((sound_step_iff hs hwaits hstep).2 trivial).1
    obtain ⟨-, ⟨⟩⟩ := Option.ite_none_left_eq_some.1 hoperate
    have hne := List.ne_of_not_mem_cons hg
    exact ⟨hsound, (grabEntry_ptr_of_ne hne).trans (releaseData_ptr_of_ne hne)⟩
  | assign h i =>
    have hsound := ((sound_step_iff hs hwaits hstep).2 trivial).1
    obtain ⟨-, ⟨⟩⟩ := Option.ite_none_right_eq_some.1 hoperate
    have hne := List.ne_of_not_mem_cons hg
    exact ⟨hsound, (grabEntry_ptr_of_ne hne).trans (releaseData_ptr_of_ne hne)⟩
  | destroy h =>
    have hsound := ((sound_step_iff hs hwaits hstep).2 trivial).1
    obtain ⟨-, ⟨⟩⟩ := Option.ite_none_right_eq_some.1 hoperate
    have hne := List.ne_of_not_mem_cons hg
    exact ⟨hsound, (Handles.drop_ptr_of_ne hne).trans (releaseData_ptr_of_ne hne)⟩
  | addStaticEntryPoint pluginName createFunc destroyFunc =>
    have hsound := ((sound_step_iff hs hwaits hstep).2 trivial).1
    obtain rfl := Option.some.inj hoperate
    refine ⟨hsound, ?_⟩
    rw [addStaticEntryPoint]
    cases s.pluginMap pluginName <;> rfl

end Opening

end PionPlugins

/-- An object of a library: the entry that created it, and the entries whose destroy function was
called for it, with whether their library was still open. -/
structure PluginInstance where
  owner : ℕ
  destroyedBy : List (ℕ × Bool) := []
deriving DecidableEq

/-- Destroyed once, by the library that created it, while that is open. -/
def PluginInstance.DestroyedOnce (x : PluginInstance) : Prop := x.destroyedBy = [(x.owner, true)]

/-- The pointer, the objects that were created through it, and the libraries of the process. -/
structure PionPluginInstancePtr (ι : Type*) where
  plugins : PionPlugins (Option ι)
  instances : List PluginInstance := []
  /-- `m_instance_ptr` -/
  instancePtr : Option ℕ := none
  /-- the pointer exists -/
  live : Bool := true

/-- The operations on the pointer, and those on other handles. -/
inductive InstanceEvent (ι : Type*) where
  /-- with the file and the library that are found, and whether an object can be created -/
  | create (pluginType : Bytes) (file : Option Bytes) (library : Option PluginLibrary)
      (creates : Bool)
  | reset
  | destruct
  | other (e : PluginEvent (Option ι))

namespace PionPluginInstancePtr

variable {ι : Type*}

section Operations

variable [DecidableEq ι] (getPluginName : Bytes → Bytes)

/-- A pointer with a handle that is closed. -/
def start : PionPluginInstancePtr ι where
  plugins := { ({} : PionPlugins (Option ι)) with shared := Shared.construct {} none }

/-- The entry of a library is not deleted. -/
def isLoaded (s : PionPluginInstancePtr ι) (b : ℕ) : Bool :=
  (s.plugins.shared.objects[b]?).map PionPluginData.closed = some 0

/-- `m_plugin_ptr.destroy`; without a library it throws. -/
def destroyObject (s : PionPluginInstancePtr ι) (i : ℕ) : Option (PionPluginInstancePtr ι) :=
  (s.plugins.shared.handles.ptr none).map fun b =>
    { s with
      instances := s.instances.modify i fun x =>
        { x with destroyedBy := x.destroyedBy ++ [(b, s.isLoaded b)] } }

/-- `reset`, unless it throws. -/
def reset (s : PionPluginInstancePtr ι) : Option (PionPluginInstancePtr ι) :=
  match s.instancePtr with
  | none => some s
  | some i => s.destroyObject i

/-- `m_instance_ptr = m_plugin_ptr.create()`, unless it throws. -/
def createObject (s : PionPluginInstancePtr ι) (creates : Bool) : PionPluginInstancePtr ι :=
  match s.plugins.shared.handles.ptr none with
  | none => s
  | some b =>
      if creates then
        { s with
          instances := s.instances ++ [{ owner := b }]
          instancePtr := some s.instances.length }
      else s

/-- `create`. -/
def create (s : PionPluginInstancePtr ι) (pluginType : Bytes) (file : Option Bytes)
    (library : Option PluginLibrary) (creates : Bool) : PionPluginInstancePtr ι :=
  match s.reset with
  | none => s
  | some s =>
      let opened :=
        { s with plugins := s.plugins.openName getPluginName none pluginType file library }
      if s.plugins.openReturns getPluginName none pluginType file library then
        opened.createObject creates
      else opened

/-- The destructor, and that of the handle. -/
def destruct (s : PionPluginInstancePtr ι) : PionPluginInstancePtr ι :=
  let s := s.reset.getD s
  let released := s.plugins.releaseData false none
  { s with
    plugins := { released with shared := released.shared.destroy none }
    instancePtr := none
    live := false }

def empty (s : PionPluginInstancePtr ι) : Bool := s.instancePtr.isNone

/-- An event, for a thread that can run. -/
def operate (s : PionPluginInstancePtr ι) : InstanceEvent ι → Option (PionPluginInstancePtr ι)
  | .create pluginType file library creates =>
      some (s.create getPluginName pluginType file library creates)
  | .reset => some (s.reset.getD s)
  | .destruct => some s.destruct
  | .other e =>
      if none ∈ e.handles then none
      else (PionPlugins.step getPluginName s.plugins e).map fun plugins =>
        { s with plugins := plugins }

def step (s : PionPluginInstancePtr ι) (e : InstanceEvent ι) :
    Option (PionPluginInstancePtr ι) :=
  if s.live = false ∨ s.plugins.waits then none else s.operate getPluginName e

end Operations

/-! ### What the pointer is for -/

/-- An object exists, and was not destroyed. -/
def IsAlive (s : PionPluginInstancePtr ι) (i : ℕ) : Prop :=
  ∃ x, s.instances[i]? = some x ∧ x.destroyedBy = []

/-- An object that was created is destroyed once, by its library; until then the pointer holds it,
and when the pointer has ceased to exist, it is destroyed.  The pointer is empty if and only if it
holds no object. -/
structure Owns (s : PionPluginInstancePtr ι) : Prop where
  once : ∀ x ∈ s.instances, x.destroyedBy = [] ∨ x.DestroyedOnce
  held : ∀ i, s.IsAlive i → s.live = true ∧ s.instancePtr = some i
  empty_iff : s.empty = true ↔ ∀ i, s.instancePtr = some i → ¬ s.IsAlive i

/-- What the objects are like: the one of the pointer is there, and is of the library that is open,
and the others are destroyed. -/
structure Sound (s : PionPluginInstancePtr ι) : Prop where
  plugins : s.plugins.Sound
  bound : ∀ i, s.instancePtr = some i → i < s.instances.length
  instances : ∀ i x, s.instances[i]? = some x →
    if s.instancePtr = some i then
      x.destroyedBy = [] ∧ s.plugins.shared.handles.ptr none = some x.owner
    else x.DestroyedOnce
  ended : s.live = false → s.instancePtr = none

variable {s s' : PionPluginInstancePtr ι}

lemma Sound.owns (hs : s.Sound) : s.Owns := by
  have hheld (i : ℕ) (halive : s.IsAlive i) : s.instancePtr = some i := by
    obtain ⟨x, hx, hnil⟩ := halive
    by_contra hne
    have honce := hs.instances i x hx
    rw [if_neg hne, PluginInstance.DestroyedOnce, hnil] at honce
    cases honce
  refine ⟨fun x hx => ?_, fun i halive => ⟨?_, hheld i halive⟩, fun hempty i hi => ?_,
    fun hdead => ?_⟩
  · obtain ⟨i, hi⟩ := List.mem_iff_getElem?.1 hx
    have hinst := hs.instances i x hi
    split_ifs at hinst with hptr
    · exact .inl hinst.1
    · exact .inr hinst
  · by_contra hlive
    rw [Bool.not_eq_true] at hlive
    cases (hheld i halive).symm.trans (hs.ended hlive)
  · rw [PionPluginInstancePtr.empty, hi] at hempty
    cases hempty
  · rw [PionPluginInstancePtr.empty, Option.isNone_iff_eq_none]
    cases hptr : s.instancePtr with
    | none => rfl
    | some i =>
      have hx := List.getElem?_eq_getElem (hs.bound i hptr)
      have hinst := hs.instances i _ hx
      rw [if_pos hptr] at hinst
      exact absurd ⟨_, hx, hinst.1⟩ (hdead i hptr)

/-- If all objects are destroyed, then the pointer has to be empty. -/
lemma Owns.empty_of_destroyed (hs : s.Owns) (hall : ∀ x ∈ s.instances, x.DestroyedOnce) :
    s.empty = true := by
  refine hs.empty_iff.2 fun i _ halive => ?_
  obtain ⟨x, hx, hnil⟩ := halive
  have honce := hall x (List.mem_of_getElem? hx)
  rw [PluginInstance.DestroyedOnce, hnil] at honce
  cases honce

/-- A pointer that is empty, with all objects destroyed. -/
lemma sound_of_destroyed (hplugins : s.plugins.Sound) (hempty : s.empty = true)
    (hall : ∀ x ∈ s.instances, x.DestroyedOnce) : s.Sound := by
  have hptr : s.instancePtr = none := Option.isNone_iff_eq_none.1 hempty
  refine ⟨hplugins, fun i hi => ?_, fun i x hx => ?_, fun _ => hptr⟩
  · cases hptr.symm.trans hi
  · rw [hptr, if_neg (by simp)]
    exact hall x (List.mem_of_getElem? hx)

/-! ### The operations -/

/-- An object that is created is the one of the pointer. -/
lemma sound_createObject {b : ℕ} (hplugins : s.plugins.Sound) (hlive : s.live = true)
    (hptr : s.plugins.shared.handles.ptr none = some b)
    (hall : ∀ x ∈ s.instances, x.DestroyedOnce) : (s.createObject true).Sound := by
  simp only [createObject, hptr, if_true]
  refine ⟨hplugins, fun i hi => ?_, fun i x hx => ?_, fun hdead => ?_⟩
  · obtain rfl : s.instances.length = i := Option.some.inj hi
    simp
  · by_cases hlast : s.instances.length = i
    · subst hlast
      rw [List.getElem?_concat_length] at hx
      obtain rfl := Option.some.inj hx
      rw [if_pos rfl]
      exact ⟨rfl, hptr⟩
    · have hlt : i < s.instances.length := by
        have hle := (List.getElem?_eq_some_iff.1 hx).1
        rw [List.length_append, List.length_singleton] at hle
        omega
      rw [List.getElem?_append_left hlt] at hx
      rw [if_neg fun heq => hlast (Option.some.inj heq)]
      exact hall x (List.mem_of_getElem? hx)
  · cases hlive.symm.trans hdead

variable [DecidableEq ι] {getPluginName : Bytes → Bytes}

/-- `reset` is called for an empty pointer only, and where `create` replaces an object, the library
opens and creates the new one. -/
def KeepsOne (getPluginName : Bytes → Bytes) (e : InstanceEvent ι) (s : PionPluginInstancePtr ι) :
    Prop :=
  match e with
  | .create pluginType file library creates =>
      s.empty = false → creates = true ∧
        s.plugins.openReturns getPluginName none pluginType file library = true
  | .reset => s.empty = true
  | .destruct | .other _ => True

/-- `reset` destroys the object of the pointer, and does not throw. -/
lemma Sound.reset (hs : s.Sound) :
    ∃ instances, s.reset = some { s with instances := instances } ∧
      ∀ x ∈ instances, x.DestroyedOnce := by
  cases hptr : s.instancePtr with
  | none =>
    have hreset : s.reset = some s := by simp only [PionPluginInstancePtr.reset, hptr]
    refine ⟨s.instances, by rw [hreset, ← hptr], fun x hx => ?_⟩
    obtain ⟨i, hi⟩ := List.mem_iff_getElem?.1 hx
    have hinst := hs.instances i x hi
    rwa [hptr, if_neg (by simp)] at hinst
  | some i =>
    obtain ⟨x, hx⟩ : ∃ x, s.instances[i]? = some x :=
      ⟨_, List.getElem?_eq_getElem (hs.bound i hptr)⟩
    have hinst := hs.instances i x hx
    rw [if_pos hptr] at hinst
    obtain ⟨data, hdata, hcounted⟩ := hs.plugins.entry hinst.2
    have hloaded : s.isLoaded x.owner = true := by
      rw [isLoaded, hdata, Option.map_some, hcounted.closed_eq, decide_eq_true_iff]
    refine ⟨s.instances.modify i fun y =>
      { y with destroyedBy := y.destroyedBy ++ [(x.owner, true)] }, ?_, fun y hy => ?_⟩
    · simp only [PionPluginInstancePtr.reset, hptr, destroyObject, hinst.2, Option.map_some,
        hloaded]
    · obtain ⟨j, hj⟩ := List.mem_iff_getElem?.1 hy
      rw [List.getElem?_modify] at hj
      by_cases hij : i = j
      · subst hij
        simp only [hx, if_true, Option.map_eq_map, Option.map_some, Option.some.injEq] at hj
        subst hj
        show x.destroyedBy ++ _ = _
        rw [hinst.1]
        rfl
      · simp only [hij, if_false, Option.map_eq_map, Option.map_id'] at hj
        have hrest := hs.instances j y hj
        rwa [hptr, if_neg (by simpa using hij)] at hrest

/-- `create` keeps what the pointer is for if and only if it puts a new object in the place of an
old one. -/
lemma Sound.create (hs : s.Sound) (hlive : s.live = true) (hwaits : s.plugins.waits = false)
    (pluginType : Bytes) (file : Option Bytes) (library : Option PluginLibrary) (creates : Bool) :
    let s' := s.create getPluginName pluginType file library creates
    (KeepsOne getPluginName (.create pluginType file library creates) s → s'.Sound) ∧
      (s'.Owns → KeepsOne getPluginName (.create pluginType file library creates) s) := by
  obtain ⟨instances, hreset, hall⟩ := hs.reset
  have hopened : (s.plugins.openName getPluginName none pluginType file library).Sound :=
    hs.plugins.openName hwaits none pluginType file library
  -- without a new object, the pointer points to what it did before
  have hold (s' : PionPluginInstancePtr ι) (hplugins : s'.plugins.Sound)
      (hinstances : s'.instances = instances) (hptr : s'.instancePtr = s.instancePtr) :
      (s.empty = true → s'.Sound) ∧ (s'.Owns → s.empty = true) := by
    have hempty : s'.empty = s.empty := congrArg Option.isNone hptr
    rw [← hinstances] at hall
    rw [← hempty]
    exact ⟨fun h => sound_of_destroyed hplugins h hall, fun h => h.empty_of_destroyed hall⟩
  simp only [PionPluginInstancePtr.create, hreset, KeepsOne]
  cases hreturns : s.plugins.openReturns getPluginName none pluginType file library with
  | false =>
    obtain ⟨hsound, howns⟩ := hold
      { s with
        plugins := s.plugins.openName getPluginName none pluginType file library
        instances := instances } hopened rfl rfl
    simp only [Bool.false_eq_true, if_false, and_false, imp_false, Bool.not_eq_false]
    exact ⟨hsound, howns⟩
  | true =>
    obtain ⟨-, b, hb⟩ := PionPlugins.openName_of_returns hs.plugins hwaits hreturns
    cases creates with
    | false =>
      obtain ⟨hsound, howns⟩ := hold
        { s with
          plugins := s.plugins.openName getPluginName none pluginType file library
          instances := instances } hopened rfl rfl
      simp only [if_true, createObject, hb, Bool.false_eq_true, if_false, false_and, imp_false,
        Bool.not_eq_false]
      exact ⟨hsound, howns⟩
    | true =>
      refine ⟨fun _ => ?_, fun _ _ => ⟨rfl, rfl⟩⟩
      rw [if_pos rfl]
      exact sound_createObject hopened hlive hb hall

lemma Sound.destruct (hs : s.Sound) : s.destruct.Sound := by
  obtain ⟨instances, hreset, hall⟩ := hs.reset
  simp only [PionPluginInstancePtr.destruct, hreset, Option.getD_some]
  have hreleased := hs.plugins.releaseData none
  exact sound_of_destroyed
    ⟨hreleased.counts.destroy PionPlugins.releaseData_ptr_self, hreleased.named⟩ rfl hall

lemma sound_start : (start : PionPluginInstancePtr ι).Sound := by
  have hplugins : ({} : PionPlugins (Option ι)).Sound := PionPlugins.sound_start
  refine sound_of_destroyed ⟨hplugins.counts.construct rfl, hplugins.named⟩ rfl fun x hx => ?_
  cases hx

/-- What an event needs to keep what the pointer is for. -/
lemma sound_step (hs : s.Sound) {e : InstanceEvent ι} (hstep : step getPluginName s e = some s') :
    (KeepsOne getPluginName e s → s'.Sound) ∧ (s'.Owns → KeepsOne getPluginName e s) := by
  obtain ⟨hruns, hoperate⟩ := Option.ite_none_left_eq_some.1 hstep
  rw [not_or, Bool.not_eq_false, Bool.not_eq_true] at hruns
  cases e with
  | create pluginType file library creates =>
    obtain rfl := Option.some.inj hoperate
    exact hs.create hruns.1 hruns.2 pluginType file library creates
  | reset =>
    obtain rfl := Option.some.inj hoperate
    obtain ⟨instances, hreset, hall⟩ := hs.reset
    rw [hreset, Option.getD_some]
    exact ⟨fun hempty => sound_of_destroyed hs.plugins hempty hall,
      fun howns => howns.empty_of_destroyed hall⟩
  | destruct =>
    obtain rfl := Option.some.inj hoperate
    exact ⟨fun _ => hs.destruct, fun _ => trivial⟩
  | other e =>
    obtain ⟨hnot, hother⟩ := Option.ite_none_left_eq_some.1 hoperate
    obtain ⟨plugins, hplugins, rfl⟩ := Option.map_eq_some_iff.1 hother
    obtain ⟨hsound, hptr⟩ := PionPlugins.step_frame hs.plugins hplugins hnot
    refine ⟨fun _ => ⟨hsound, hs.bound, fun i x hx => ?_, hs.ended⟩, fun _ => trivial⟩
    have hinst := hs.instances i x hx
    rwa [← hptr] at hinst

/-! ### Whole runs -/

/-- In a run, every object is destroyed once, by its library, and the pointer is empty exactly if it
holds none, if and only if `reset` is called for an empty pointer only, and every object that
`create` destroys is replaced. -/
theorem owns_iff (getPluginName : Bytes → Bytes) {es : List (InstanceEvent ι)}
    {s : PionPluginInstancePtr ι} (h : run (step getPluginName) start es = some s) :
    (∀ u : PionPluginInstancePtr ι, ReachedIn (step getPluginName) start es u → u.Owns) ↔
      ∀ e u, HappensIn (step getPluginName) start es e u → KeepsOne getPluginName e u := by
  have hsteps := steps_iff_of_invariant (P := Owns) (I := Sound) (K := fun _ _ _ => True)
    (Q := KeepsOne getPluginName) sound_start (fun _ hu => hu.owns)
    (fun u e u' hu he hQ => ⟨(sound_step hu he).1 hQ, trivial⟩)
    (fun u e u' hu he howns _ => (sound_step hu he).2 howns) h
  rw [← hsteps]
  exact ⟨fun hall => ⟨hall, fun _ _ _ _ _ => trivial⟩, And.left⟩

/-- An object is created, the library of another one cannot be opened while the pointer is empty,
and another object is put in the place of the first. -/
theorem owns_iff_replaced :
    let library : PluginLibrary := { libHandle := 1, createFunc := 2, destroyFunc := 3 }
    let events : List (InstanceEvent ℕ) := [.create [67] none none true, .reset,
      .create [65] (some [65]) (some library) true, .create [66] (some [66]) (some library) true,
      .destruct]
    (run (step id) start events).map PionPluginInstancePtr.instances =
        some [⟨0, [(0, true)]⟩, ⟨1, [(1, true)]⟩] ∧
      ((∀ u, ReachedIn (step id) start events u → u.Owns) ↔
        ∀ e u, HappensIn (step id) start events e u → KeepsOne id e u) := by
  intro library events
  have hrun : (run (step id) start events).map PionPluginInstancePtr.instances =
      some [⟨0, [(0, true)]⟩, ⟨1, [(1, true)]⟩] := by
    decide +kernel
  obtain ⟨s, hs, -⟩ := Option.map_eq_some_iff.1 hrun
  exact ⟨hrun, owns_iff id hs⟩

/-- After `reset`, the destructor destroys the object a second time. -/
theorem owns_iff_fails :
    let library : PluginLibrary := { libHandle := 1, createFunc := 2, destroyFunc := 3 }
    (run (step id) start ([.create [65] (some [65]) (some library) true, .reset, .destruct] :
      List (InstanceEvent ℕ))).map PionPluginInstancePtr.instances =
        some [⟨0, [(0, true), (0, true)]⟩] := by
  decide +kernel

end PionPluginInstancePtr

end PionCore.Common
