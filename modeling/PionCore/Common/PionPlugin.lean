/-
# Plug-in libraries

`PionPlugin`: handles that share plug-in libraries, which are found by their name in a map.  A
library that was loaded is closed with its last handle; an entry point that is linked statically
has no library, and stays in the map.

The map is guarded by a mutex that is not recursive: a thread that locks it twice waits forever.
What `findPluginFile` finds and what `dlopen` and `dlsym` return is part of each operation, and
`getPluginName`, which is the base name of a file, is a parameter.
-/
import PionCore.Lib.Ascii
import PionCore.Lib.Runs
import PionCore.Lib.Shared

namespace PionCore.Common

open PionCore.Lib

/-- What `openPlugin` gets of a library, if it does not throw. -/
structure PluginLibrary where
  libHandle : ℕ
  createFunc : ℕ
  destroyFunc : ℕ

/-- An entry of the map, and how many times its library was closed and the entry deleted. -/
structure PionPluginData where
  pluginName : Bytes
  libHandle : Option ℕ := none
  createFunc : ℕ
  destroyFunc : ℕ
  references : ℕ := 0
  closed : ℕ := 0

namespace PionPluginData

/-- The entry is deleted when its last handle leaves it. -/
def isLast (data : PionPluginData) : Bool := data.references - 1 = 0 ∧ data.libHandle ≠ none

/-- A handle leaves the entry. -/
def release (data : PionPluginData) : PionPluginData :=
  { data with
    references := data.references - 1
    closed := if data.isLast then data.closed + 1 else data.closed }

def grab (data : PionPluginData) : PionPluginData := { data with references := data.references + 1 }

/-- What an entry of `n` handles is like: it counts them, and its library, if it has one, is closed
when there are none. -/
def Counted (data : PionPluginData) (n : ℕ) : Prop :=
  data.references = n ∧ data.closed = if n = 0 ∧ data.libHandle ≠ none then 1 else 0

/-- What the map sees of an entry. -/
def tag (data : PionPluginData) : Bytes × ℕ := (data.pluginName, data.closed)

variable {n : ℕ} {data : PionPluginData}

lemma Counted.isLast_iff (h : data.Counted (n + 1)) :
    data.isLast = true ↔ n = 0 ∧ data.libHandle ≠ none := by
  have hreferences : data.references - 1 = n := by
    have hcount := h.1
    omega
  rw [isLast, hreferences, decide_eq_true_iff]

/-- An entry that a handle points to is not closed. -/
lemma Counted.closed_eq (h : data.Counted (n + 1)) : data.closed = 0 := by
  have hclosed := h.2
  rwa [if_neg fun hzero => Nat.succ_ne_zero n hzero.1] at hclosed

lemma Counted.release (h : data.Counted (n + 1)) : data.release.Counted n := by
  refine ⟨?_, ?_⟩
  · show data.references - 1 = n
    have hcount := h.1
    omega
  · show (if data.isLast then data.closed + 1 else data.closed) =
      if n = 0 ∧ data.libHandle ≠ none then 1 else 0
    rw [h.closed_eq]
    exact if_congr h.isLast_iff rfl rfl

lemma Counted.grab (hopen : data.closed = 0) (h : data.Counted n) : data.grab.Counted (n + 1) := by
  refine ⟨congrArg (· + 1) h.1, ?_⟩
  rw [if_neg fun hzero => Nat.succ_ne_zero n hzero.1]
  exact hopen

lemma tag_grab : data.grab.tag = data.tag := rfl

end PionPluginData

/-- The handles, the entries, and the map of their names. -/
structure PionPlugins (ι : Type*) where
  shared : Shared ι PionPluginData := {}
  pluginMap : Bytes → Option ℕ := fun _ => none
  /-- a thread waits for the mutex that it holds -/
  waits : Bool := false

/-- The operations on a handle, and `addStaticEntryPoint`. -/
inductive PluginEvent (ι : Type*) where
  | construct (h : ι)
  /-- with the file that is found and the library that is loaded -/
  | openName (h : ι) (pluginName : Bytes) (file : Option Bytes) (library : Option PluginLibrary)
  | openFile (h : ι) (file : Bytes) (library : Option PluginLibrary)
  | close (h : ι)
  | copyConstruct (h g : ι)
  | assign (h g : ι)
  | destroy (h : ι)
  | addStaticEntryPoint (pluginName : Bytes) (createFunc destroyFunc : ℕ)

namespace PionPlugins

variable {ι : Type*}

/-- The entries count their handles and are closed with the last one, and the map has the entries
that are not closed. -/
structure Sound (s : PionPlugins ι) : Prop where
  counts : s.shared.Counts PionPluginData.Counted
  named : ∀ pluginName b, s.pluginMap pluginName = some b ↔
    (s.shared.objects[b]?).map PionPluginData.tag = some (pluginName, 0)

def addStaticEntryPoint (s : PionPlugins ι) (pluginName : Bytes) (createFunc destroyFunc : ℕ) :
    PionPlugins ι :=
  match s.pluginMap pluginName with
  | some _ => s
  | none =>
      { s with
        shared := s.shared.add
          { pluginName := pluginName, createFunc := createFunc, destroyFunc := destroyFunc }
        pluginMap := Function.update s.pluginMap pluginName (some s.shared.objects.length) }

section Names

variable {s : PionPlugins ι}

lemma sound_start : ({} : PionPlugins ι).Sound where
  counts := Shared.counts_start
  named name b := by simp

/-- A name that the map does not have. -/
lemma Sound.named_append (hs : s.Sound) {pluginName : Bytes} (hnone : s.pluginMap pluginName = none)
    {data : PionPluginData} (htag : data.tag = (pluginName, 0)) (name : Bytes) (b : ℕ) :
    Function.update s.pluginMap pluginName (some s.shared.objects.length) name = some b ↔
      ((s.shared.objects ++ [data])[b]?).map PionPluginData.tag = some (name, 0) := by
  rw [List.getElem?_append]
  split_ifs with hlt
  · rw [← hs.named]
    by_cases hname : name = pluginName
    · subst hname
      rw [Function.update_self, hnone]
      exact iff_of_false (fun hsome => hlt.ne' (Option.some.inj hsome)) (by simp)
    · rw [Function.update_of_ne hname]
  · have hold : ∀ name, s.pluginMap name ≠ some b := by
      intro name hsome
      rw [hs.named] at hsome
      obtain ⟨old, hold, -⟩ := Option.map_eq_some_iff.1 hsome
      exact hlt (List.getElem?_eq_some_iff.1 hold).1
    by_cases hname : name = pluginName
    · subst hname
      rw [Function.update_self]
      by_cases hb : s.shared.objects.length = b
      · subst hb
        simp [htag]
      · refine iff_of_false (fun hsome => hb (Option.some.inj hsome)) fun hsome => ?_
        obtain ⟨new, hnew, -⟩ := Option.map_eq_some_iff.1 hsome
        have hle := (List.getElem?_eq_some_iff.1 hnew).1
        rw [List.length_singleton] at hle
        omega
    · rw [Function.update_of_ne hname]
      refine iff_of_false (hold name) fun hsome => ?_
      obtain ⟨new, hnew, hname'⟩ := Option.map_eq_some_iff.1 hsome
      obtain rfl := List.mem_singleton.1 (List.mem_of_getElem? hnew)
      exact hname (congrArg Prod.fst (hname'.symm.trans htag))

lemma Sound.addStaticEntryPoint (hs : s.Sound) (pluginName : Bytes) (createFunc destroyFunc : ℕ) :
    (s.addStaticEntryPoint pluginName createFunc destroyFunc).Sound := by
  rw [PionPlugins.addStaticEntryPoint]
  cases hfound : s.pluginMap pluginName with
  | some b => exact hs
  | none => exact ⟨hs.counts.add ⟨rfl, rfl⟩, hs.named_append hfound rfl⟩

lemma addStaticEntryPoint_waits {pluginName : Bytes} {createFunc destroyFunc : ℕ} :
    (s.addStaticEntryPoint pluginName createFunc destroyFunc).waits = s.waits := by
  rw [addStaticEntryPoint]
  cases s.pluginMap pluginName <;> rfl

end Names

variable [DecidableEq ι] (getPluginName : Bytes → Bytes)

/-- `releaseData`, for a thread that does or does not hold the mutex. -/
def releaseData (locked : Bool) (s : PionPlugins ι) (h : ι) : PionPlugins ι :=
  match s.shared.handles.ptr h with
  | none => s
  | some b =>
      if locked then { s with waits := true }
      else
        { s with
          shared := s.shared.leave .release h
          pluginMap :=
            match s.shared.objects[b]? with
            | none => s.pluginMap
            | some data =>
                if data.isLast then Function.update s.pluginMap data.pluginName none
                else s.pluginMap }

/-- A handle that is closed is attached to an entry. -/
def grabEntry (s : PionPlugins ι) (h : ι) (p : Option ℕ) : PionPlugins ι :=
  { s with shared := s.shared.attach .grab h p }

/-- The first handle of a new entry. -/
def insert (s : PionPlugins ι) (h : ι) (pluginName : Bytes) (library : PluginLibrary) :
    PionPlugins ι :=
  { s with
    shared := s.shared.create h
      { pluginName := pluginName, libHandle := some library.libHandle,
        createFunc := library.createFunc, destroyFunc := library.destroyFunc, references := 1 }
    pluginMap := Function.update s.pluginMap pluginName (some s.shared.objects.length) }

/-- `openFile`; if `openPlugin` throws, then the handle stays closed. -/
def openFile (s : PionPlugins ι) (h : ι) (file : Bytes) (library : Option PluginLibrary) :
    PionPlugins ι :=
  let released := s.releaseData false h
  match released.pluginMap (getPluginName file) with
  | some b => released.grabEntry h (some b)
  | none =>
      match library with
      | none => released
      | some library => released.insert h (getPluginName file) library

/-- `open`; if no file is found, then it throws, and nothing has changed. -/
def openName (s : PionPlugins ι) (h : ι) (pluginName : Bytes) (file : Option Bytes)
    (library : Option PluginLibrary) : PionPlugins ι :=
  match s.pluginMap pluginName with
  | some b =>
      -- the mutex is held here
      let released := s.releaseData true h
      if released.waits then released else released.grabEntry h (some b)
  | none =>
      match file with
      | none => s
      | some file => s.openFile getPluginName h file library

/-- `grabData`. -/
def grabData (s : PionPlugins ι) (h g : ι) : PionPlugins ι :=
  let released := s.releaseData false h
  released.grabEntry h (released.shared.handles.ptr g)

/-- An operation, for a thread that can run. -/
def operate (s : PionPlugins ι) : PluginEvent ι → Option (PionPlugins ι)
  | .construct h =>
      if h ∈ s.shared.handles.live then none else some { s with shared := s.shared.construct h }
  | .openName h pluginName file library =>
      if h ∈ s.shared.handles.live then some (s.openName getPluginName h pluginName file library)
      else none
  | .openFile h file library =>
      if h ∈ s.shared.handles.live then some (s.openFile getPluginName h file library) else none
  | .close h => if h ∈ s.shared.handles.live then some (s.releaseData false h) else none
  | .copyConstruct h g =>
      if h ∈ s.shared.handles.live ∨ g ∉ s.shared.handles.live then none else some (s.grabData h g)
  | .assign h g =>
      if h ∈ s.shared.handles.live ∧ g ∈ s.shared.handles.live then some (s.grabData h g) else none
  | .destroy h =>
      if h ∈ s.shared.handles.live then
        some { s.releaseData false h with shared := (s.releaseData false h).shared.destroy h }
      else none
  | .addStaticEntryPoint pluginName createFunc destroyFunc =>
      some (s.addStaticEntryPoint pluginName createFunc destroyFunc)

def step (s : PionPlugins ι) (e : PluginEvent ι) : Option (PionPlugins ι) :=
  if s.waits then none else s.operate getPluginName e

/-! ### The entries of the map -/

variable {getPluginName} {s : PionPlugins ι} {h g : ι} {b : ℕ}

/-- The entry that a handle points to. -/
lemma Sound.entry (hs : s.Sound) (hptr : s.shared.handles.ptr h = some b) :
    ∃ data, s.shared.objects[b]? = some data ∧
      data.Counted (s.shared.handles.others h b + 1) := by
  obtain ⟨data, hdata⟩ := hs.counts.object hptr
  refine ⟨data, hdata, ?_⟩
  rw [Handles.others_of_pointsTo (hs.counts.pointsTo hptr)]
  exact hs.counts.counted b data hdata

lemma releaseData_of_none {locked : Bool} (hptr : s.shared.handles.ptr h = none) :
    s.releaseData locked h = s := by
  rw [releaseData, hptr]

lemma releaseData_of_some {data : PionPluginData} (hptr : s.shared.handles.ptr h = some b)
    (hdata : s.shared.objects[b]? = some data) :
    s.releaseData false h =
      { s with
        shared := s.shared.leave .release h
        pluginMap := if data.isLast then Function.update s.pluginMap data.pluginName none
          else s.pluginMap } := by
  simp only [releaseData, hptr, hdata]
  rfl

lemma releaseData_ptr_self : (s.releaseData false h).shared.handles.ptr h = none := by
  cases hptr : s.shared.handles.ptr h with
  | none => rw [releaseData_of_none hptr, hptr]
  | some b =>
    simp only [releaseData, hptr]
    exact Shared.leave_ptr_self

lemma releaseData_waits : (s.releaseData false h).waits = s.waits := by
  cases hptr : s.shared.handles.ptr h with
  | none => rw [releaseData_of_none hptr]
  | some b =>
    simp only [releaseData, hptr]
    rfl

lemma Sound.releaseData (hs : s.Sound) (h : ι) : (s.releaseData false h).Sound := by
  cases hptr : s.shared.handles.ptr h with
  | none =>
    rw [releaseData_of_none hptr]
    exact hs
  | some b =>
    obtain ⟨data, hdata, hcounted⟩ := hs.entry hptr
    have hmap : s.pluginMap data.pluginName = some b := by
      rw [hs.named, hdata]
      exact congrArg (fun n => some (data.pluginName, n)) hcounted.closed_eq
    have hobjects : (s.shared.leave PionPluginData.release h).objects =
        s.shared.objects.modify b PionPluginData.release := by
      rw [Shared.leave, hptr]
    rw [releaseData_of_some hptr hdata]
    refine ⟨hs.counts.leave fun _ _ _ _ => PionPluginData.Counted.release, fun name c => ?_⟩
    show (if data.isLast then Function.update s.pluginMap data.pluginName none
      else s.pluginMap) name = some c ↔ _
    rw [hobjects]
    by_cases hbc : b = c
    · subst hbc
      have hnew : (s.shared.objects.modify b PionPluginData.release)[b]? = some data.release := by
        simp [hdata]
      rw [hnew, Option.map_some, Option.some.injEq]
      by_cases hlast : data.isLast = true
      · -- the entry is closed, and its name is taken out of the map
        have hclosed : data.release.closed = 1 := by
          rw [PionPluginData.release, if_pos hlast, hcounted.closed_eq]
        rw [if_pos hlast]
        refine iff_of_false (fun hsome => ?_) (by simp [PionPluginData.tag, hclosed])
        by_cases hname : name = data.pluginName
        · simp [hname] at hsome
        · rw [Function.update_of_ne hname, hs.named, hdata] at hsome
          simp [PionPluginData.tag, eq_comm, hname] at hsome
      · have htag : data.release.tag = data.tag := by
          rw [PionPluginData.tag, PionPluginData.release, if_neg hlast, PionPluginData.tag]
        rw [if_neg hlast, htag, hs.named, hdata, Option.map_some, Option.some.injEq]
    · rw [List.getElem?_modify_ne _ _ hbc, ← hs.named]
      by_cases hlast : data.isLast = true
      · rw [if_pos hlast]
        by_cases hname : name = data.pluginName
        · subst hname
          rw [Function.update_self]
          exact iff_of_false (by simp) fun hsome => hbc (Option.some.inj (hmap.symm.trans hsome))
        · rw [Function.update_of_ne hname]
      · rw [if_neg hlast]

/-- A closed handle is attached to an entry that the map has. -/
lemma Sound.grabEntry (hs : s.Sound) (hptr : s.shared.handles.ptr h = none) {p : Option ℕ}
    (hp : ∀ b, p = some b → ∃ pluginName, s.pluginMap pluginName = some b) :
    (s.grabEntry h p).Sound := by
  have hentry : ∀ b, p = some b →
      ∃ data : PionPluginData, s.shared.objects[b]? = some data ∧ data.closed = 0 := by
    intro b hb
    obtain ⟨name, hname⟩ := hp b hb
    obtain ⟨data, hdata, htag⟩ := Option.map_eq_some_iff.1 ((hs.named name b).1 hname)
    exact ⟨data, hdata, congrArg Prod.snd htag⟩
  refine ⟨hs.counts.attach hptr (fun b hb => ?_) fun b data hb hdata hcounted => ?_, ?_⟩
  · obtain ⟨data, hdata, -⟩ := hentry b hb
    exact (List.getElem?_eq_some_iff.1 hdata).1
  · obtain ⟨data', hdata', hclosed⟩ := hentry b hb
    obtain rfl : data' = data := Option.some.inj (hdata'.symm.trans hdata)
    exact hcounted.grab hclosed
  · intro name b
    show s.pluginMap name = some b ↔
      ((s.shared.attach PionPluginData.grab h p).objects[b]?).map PionPluginData.tag = _
    rw [Shared.map_attach fun _ => PionPluginData.tag_grab]
    exact hs.named name b

/-! ### The operations -/

/-- A handle is opened by a name that the map has only if it is closed. -/
def OpensClosed (e : PluginEvent ι) (s : PionPlugins ι) : Prop :=
  match e with
  | .openName h pluginName _ _ => s.pluginMap pluginName ≠ none → s.shared.handles.ptr h = none
  | .construct _ | .openFile _ _ _ | .close _ | .copyConstruct _ _ | .assign _ _ | .destroy _
  | .addStaticEntryPoint _ _ _ => True

/-- The handle of a new library. -/
lemma Sound.insert (hs : s.Sound) (hptr : s.shared.handles.ptr h = none) {pluginName : Bytes}
    (hnone : s.pluginMap pluginName = none) (library : PluginLibrary) :
    (s.insert h pluginName library).Sound :=
  ⟨hs.counts.create hptr ⟨rfl, rfl⟩, hs.named_append hnone rfl⟩

lemma Sound.openFile (hs : s.Sound) (h : ι) (file : Bytes) (library : Option PluginLibrary) :
    (s.openFile getPluginName h file library).Sound := by
  have hreleased := hs.releaseData h
  simp only [PionPlugins.openFile]
  cases hfound : (s.releaseData false h).pluginMap (getPluginName file) with
  | some b =>
    refine hreleased.grabEntry releaseData_ptr_self fun c hc => ⟨_, hfound.trans ?_⟩
    exact hc
  | none =>
    cases library with
    | none => exact hreleased
    | some library => exact hreleased.insert releaseData_ptr_self hfound library

lemma openFile_waits {file : Bytes} {library : Option PluginLibrary} :
    (s.openFile getPluginName h file library).waits = s.waits := by
  rw [← releaseData_waits (s := s) (h := h)]
  simp only [openFile]
  cases (s.releaseData false h).pluginMap (getPluginName file) with
  | some b => rfl
  | none => cases library <;> rfl

lemma Sound.grabData (hs : s.Sound) (h g : ι) : (s.grabData h g).Sound := by
  have hreleased := hs.releaseData h
  refine hreleased.grabEntry releaseData_ptr_self fun b hb => ?_
  obtain ⟨data, hdata, hcounted⟩ := hreleased.entry hb
  refine ⟨data.pluginName, (hreleased.named _ _).2 ?_⟩
  rw [hdata]
  exact congrArg (fun n => some (data.pluginName, n)) hcounted.closed_eq

lemma grabData_waits : (s.grabData h g).waits = s.waits := releaseData_waits

/-- A name that the map has can be opened with a closed handle only: with another one, `open` calls
`releaseData` while it holds the mutex. -/
lemma openName_iff (hs : s.Sound) (hwaits : s.waits = false) {pluginName : Bytes}
    {file : Option Bytes} {library : Option PluginLibrary} :
    ((s.openName getPluginName h pluginName file library).Sound ∧
        (s.openName getPluginName h pluginName file library).waits = false) ↔
      (s.pluginMap pluginName ≠ none → s.shared.handles.ptr h = none) := by
  simp only [openName]
  cases hfound : s.pluginMap pluginName with
  | none =>
    refine iff_of_true ?_ fun hne => absurd rfl hne
    cases file with
    | none => exact ⟨hs, hwaits⟩
    | some file => exact ⟨hs.openFile h file library, openFile_waits.trans hwaits⟩
  | some b =>
    cases hptr : s.shared.handles.ptr h with
    | none =>
      refine iff_of_true ?_ fun _ => rfl
      have hgrab : (s.grabEntry h (some b)).Sound :=
        hs.grabEntry hptr fun c hc => ⟨pluginName, hfound.trans hc⟩
      simpa [releaseData_of_none hptr, hwaits] using ⟨hgrab, hwaits⟩
    | some c =>
      have hlocked : s.releaseData true h = { s with waits := true } := by
        rw [releaseData, hptr]
        rfl
      refine iff_of_false ?_ fun hnone => by simpa using hnone (by simp)
      rw [hlocked]
      exact fun hboth => Bool.noConfusion hboth.2

/-- What an operation needs for the entries, and to return. -/
lemma sound_step_iff (hs : s.Sound) (hwaits : s.waits = false) {e : PluginEvent ι}
    {s' : PionPlugins ι} (hstep : step getPluginName s e = some s') :
    s'.Sound ∧ s'.waits = false ↔ OpensClosed e s := by
  have hoperate : s.operate getPluginName e = some s' := by
    rwa [step, hwaits, if_neg Bool.false_ne_true] at hstep
  cases e with
  | construct h =>
    obtain ⟨hlive, ⟨⟩⟩ := Option.ite_none_left_eq_some.1 hoperate
    have hptr := hs.counts.ptr_of_not_live hlive
    exact iff_of_true ⟨⟨hs.counts.construct hptr, hs.named⟩, hwaits⟩ trivial
  | openName h pluginName file library =>
    obtain ⟨-, ⟨⟩⟩ := Option.ite_none_right_eq_some.1 hoperate
    exact openName_iff hs hwaits
  | openFile h file library =>
    obtain ⟨-, ⟨⟩⟩ := Option.ite_none_right_eq_some.1 hoperate
    exact iff_of_true ⟨hs.openFile h file library, openFile_waits.trans hwaits⟩ trivial
  | close h =>
    obtain ⟨-, ⟨⟩⟩ := Option.ite_none_right_eq_some.1 hoperate
    exact iff_of_true ⟨hs.releaseData h, releaseData_waits.trans hwaits⟩ trivial
  | copyConstruct h g =>
    obtain ⟨-, ⟨⟩⟩ := Option.ite_none_left_eq_some.1 hoperate
    exact iff_of_true ⟨hs.grabData h g, grabData_waits.trans hwaits⟩ trivial
  | assign h g =>
    obtain ⟨-, ⟨⟩⟩ := Option.ite_none_right_eq_some.1 hoperate
    exact iff_of_true ⟨hs.grabData h g, grabData_waits.trans hwaits⟩ trivial
  | destroy h =>
    obtain ⟨-, ⟨⟩⟩ := Option.ite_none_right_eq_some.1 hoperate
    have hreleased := hs.releaseData h
    refine iff_of_true ⟨⟨?_, hreleased.named⟩, releaseData_waits.trans hwaits⟩ trivial
    exact hreleased.counts.destroy releaseData_ptr_self
  | addStaticEntryPoint pluginName createFunc destroyFunc =>
    obtain rfl := Option.some.inj hoperate
    exact iff_of_true ⟨hs.addStaticEntryPoint .., addStaticEntryPoint_waits.trans hwaits⟩ trivial

/-! ### Whole runs -/

/-- In a run, the entries of the map count their handles and are closed with the last one, static
ones stay, and every operation returns or throws, if and only if no handle that is open is opened
by a name that the map has. -/
theorem plugins_sound_iff (getPluginName : Bytes → Bytes) {s : PionPlugins ι}
    {es : List (PluginEvent ι)} (h : run (step getPluginName) {} es = some s) :
    (∀ u : PionPlugins ι, ReachedIn (step getPluginName) {} es u → u.Sound ∧ u.waits = false) ↔
      ∀ e u, HappensIn (step getPluginName) {} es e u → OpensClosed e u := by
  refine reached_iff (P := fun u => u.Sound ∧ u.waits = false) (Q := OpensClosed)
    ⟨sound_start, rfl⟩ ?_ h
  intro u e u' hu hstep
  exact sound_step_iff hu.1 hu.2 hstep

/-- Two handles of a library are closed, and a static entry is opened. -/
theorem plugins_sound_iff_closed :
    let library : PluginLibrary := { libHandle := 1, createFunc := 2, destroyFunc := 3 }
    let events := [.construct 0, .construct 1, .openName 0 [65] (some [65]) (some library),
      .openName 1 [65] none none, .close 0, .addStaticEntryPoint [66] 4 5, .close 1,
      .openName 0 [66] none none, .openFile 1 [65] none]
    let start : PionPlugins ℕ := {}
    (run (step id) start events).map
        (fun s => s.shared.objects.map fun data => (data.references, data.closed)) =
          some [(0, 1), (1, 0)] ∧
      ((∀ u, ReachedIn (step id) start events u → u.Sound ∧ u.waits = false) ↔
        ∀ e u, HappensIn (step id) start events e u → OpensClosed e u) := by
  intro library events start
  have hrun : (run (step id) start events).map
      (fun s => s.shared.objects.map fun data => (data.references, data.closed)) =
        some [(0, 1), (1, 0)] := by
    decide +kernel
  obtain ⟨s, hs, -⟩ := Option.map_eq_some_iff.1 hrun
  exact ⟨hrun, plugins_sound_iff id hs⟩

/-- A handle is opened twice by the same name. -/
theorem plugins_sound_iff_fails :
    let start : PionPlugins ℕ := {}
    (run (step id) start [.construct 0, .addStaticEntryPoint [66] 4 5, .openName 0 [66] none none,
      .openName 0 [66] none none]).map PionPlugins.waits = some true := by
  decide +kernel

end PionPlugins

end PionCore.Common
