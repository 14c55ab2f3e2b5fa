/-
# The files of a log reactor

`LogOutputReactor` writes the events that it processes with a codec to a log file.  The file is
opened for appending, so that a reactor that is started again writes behind what is there.  A query
for rotation gives the file a name with a time stamp, and a new one is begun.
-/
import PionCore.Lib.Runs
import PionCore.Platform.JSONRoundTrip
import PionCore.Platform.LogWriter
import PionCore.Platform.XMLRoundTrip

namespace PionCore.Platform

open PionCore.Lib PionCore.Common

/-- What a codec writes: the state of a new codec, an event, and the end of the output. -/
structure OutputCodec (σ ε : Type*) where
  start : σ
  write : σ → ε → Option (σ × Bytes)
  finish : σ → Option Bytes

namespace OutputCodec

variable {σ ε : Type*} (c : OutputCodec σ ε)

/-- Some events are written. -/
def writes (s : σ) : List ε → Option (σ × Bytes)
  | [] => some (s, [])
  | e :: es => (c.write s e).bind fun p => (writes p.1 es).map fun q => (q.1, p.2 ++ q.2)

lemma writes_snoc (s : σ) (es : List ε) (e : ε) :
    c.writes s (es ++ [e]) =
      (c.writes s es).bind fun p => (c.write p.1 e).map fun q => (q.1, p.2 ++ q.2) := by
  induction es generalizing s with
  | nil => simp [writes, Option.map_eq_bind]
  | cons d es ih =>
    rw [List.cons_append, writes, writes]
    cases c.write s d with
    | none => rfl
    | some p =>
      rw [Option.bind_some, Option.bind_some, ih]
      cases c.writes p.1 es with
      | none => rfl
      | some q => cases hq : c.write q.1 e <;> simp [hq]

end OutputCodec

/-- The reactor with the files that it has made.  `logFile` is the file of the configured name, and
`rotated` has the files with a time stamp, in the order of their creation.  `written` are the events
that were processed. -/
structure LogOutputReactor (σ ε : Type*) where
  isRunning : Bool := false
  codec : Option σ := none
  logFile : Option Bytes := none
  rotated : List (Bytes × Bytes) := []
  written : List ε := []

namespace LogOutputReactor

variable {σ ε : Type*} (c : OutputCodec σ ε)

/-- `openLogFileNoLock` -/
def openLogFile (s : LogOutputReactor σ ε) : LogOutputReactor σ ε :=
  { s with codec := some c.start, logFile := some (s.logFile.getD []) }

/-- `closeLogFileNoLock`, which removes a file that is empty. -/
def closeLogFile (s : LogOutputReactor σ ε) : Option (LogOutputReactor σ ε) :=
  match s.codec with
  | none => some s
  | some codec =>
    (c.finish codec).map fun out =>
      { s with
        codec := none
        logFile := if s.logFile.getD [] ++ out = [] then none else some (s.logFile.getD [] ++ out) }

def start (s : LogOutputReactor σ ε) : LogOutputReactor σ ε :=
  if s.isRunning then s else { openLogFile c s with isRunning := true }

def stop (s : LogOutputReactor σ ε) : Option (LogOutputReactor σ ε) :=
  if s.isRunning then (closeLogFile c s).map fun s' => { s' with isRunning := false } else some s

/-- An event of another type than the codec's is not written. -/
def process (codecType eventType : ℕ) (e : ε) (s : LogOutputReactor σ ε) :
    Option (LogOutputReactor σ ε) :=
  if s.isRunning ∧ eventType = codecType then
    s.codec.bind fun codec => (c.write codec e).map fun p =>
      { s with
        codec := some p.1
        logFile := s.logFile.map (· ++ p.2)
        written := s.written ++ [e] }
  else some s

/-- The log file gets a name with a time stamp, if it is there. -/
def stamp (timestamp : Bytes) (s : LogOutputReactor σ ε) : LogOutputReactor σ ε :=
  match s.logFile with
  | none => s
  | some w => { s with logFile := none, rotated := s.rotated ++ [(timestamp, w)] }

/-- The query for rotation, which throws if there is a file with the time stamp. -/
def rotate (timestamp : Bytes) (s : LogOutputReactor σ ε) : Option (LogOutputReactor σ ε) :=
  if (s.rotated.map Prod.fst).contains timestamp then some s
  else if s.isRunning then
    (closeLogFile c s).map fun s' => openLogFile c (stamp timestamp s')
  else some (stamp timestamp s)

/-- The operations; a restart is `stop` and then `start`. -/
inductive Op (ε : Type*) where
  | start
  | process (eventType : ℕ) (e : ε)
  | stop
  | rotate (timestamp : Bytes)

def step (codecType : ℕ) (s : LogOutputReactor σ ε) : Op ε → Option (LogOutputReactor σ ε)
  | .start => some (start c s)
  | .process eventType e => process c codecType eventType e s
  | .stop => stop c s
  | .rotate timestamp => rotate c timestamp s

/-- The contents of the files, in the order of their creation. -/
def files (s : LogOutputReactor σ ε) : List Bytes := s.rotated.map Prod.snd ++ s.logFile.toList

/-- The events of the codec's type. -/
def eventsOf (codecType : ℕ) (ops : List (Op ε)) : List ε :=
  ops.filterMap fun
    | .process eventType e => if eventType = codecType then some e else none
    | _ => none

/-- When the reactor has been stopped, each file is read as some events, and these are all events
that were processed, in their order. -/
def ReadsBack (codecType : ℕ) (Reads : Bytes → List ε → Prop) (ops : List (Op ε)) : Prop :=
  ∃ s s', run (step c codecType) {} ops = some s ∧ stop c s = some s' ∧
    ∃ groups, List.Forall₂ Reads s'.files groups ∧ groups.flatten = s'.written

/-- The first event that a codec writes comes into an empty file.  If it is the only one that the
codec may write, then no other comes into the file. -/
def OwnFile (codecType : ℕ) (single : Prop) (op : Op ε) (s : LogOutputReactor σ ε) : Prop :=
  ∀ e, op = .process codecType e → s.isRunning = true →
    (s.codec = some c.start → s.logFile = some []) ∧ (single → s.codec = some c.start)

/-! ### What is kept -/

/-- A new codec writes some of the events, and its output is read back; without events nothing is
written. -/
structure Faithful (Reads : Bytes → List ε → Prop) (single : Prop) (all : List ε) : Prop where
  session : ∀ es, es.Sublist all → es ≠ [] → (single → es.length ≤ 1) →
    ∃ codec out fin, c.writes c.start es = some (codec, out) ∧ c.finish codec = some fin ∧
      Reads (out ++ fin) es
  idle : c.finish c.start = some []
  nothing : ∀ es, Reads [] es → es = []
  moves : single → ∀ codec e codec' out, c.write codec e = some (codec', out) → codec' ≠ c.start

/-- The output of two codecs in one file is read as that of one. -/
def Appends (Reads : Bytes → List ε → Prop) : Prop :=
  ∀ w v es ds, Reads w es → Reads v ds → Reads (w ++ v) (es ++ ds)

/-- A file that is closed: none, or one from which its events are read. -/
def Closed (Reads : Bytes → List ε → Prop) : Option Bytes → List ε → Prop
  | none, es => es = []
  | some w, es => w ≠ [] ∧ Reads w es

/-- The events of the file that is closed, or that the codec has begun. -/
inductive Current (Reads : Bytes → List ε → Prop) (single : Prop) :
    LogOutputReactor σ ε → List ε → Prop
  | closed {s es} (hrunning : s.isRunning = false) (hcodec : s.codec = none)
      (hfile : Closed Reads s.logFile es) : Current Reads single s es
  | opened {s file before es codec out} (hrunning : s.isRunning = true)
      (hcodec : s.codec = some codec) (hbefore : Closed Reads file before)
      (hwrites : c.writes c.start es = some (codec, out))
      (hfile : s.logFile = some (file.getD [] ++ out))
      (hown : es ≠ [] → file = none ∨ Appends Reads) (hsingle : single → es.length ≤ 1) :
      Current Reads single s (before ++ es)

/-- The files of the reactor have all events that were processed. -/
def Kept (Reads : Bytes → List ε → Prop) (single : Prop) (s : LogOutputReactor σ ε) : Prop :=
  ∃ groups es, List.Forall₂ Reads (s.rotated.map Prod.snd) groups ∧
    Current c Reads single s es ∧ s.written = groups.flatten ++ es

variable {c} {Reads : Bytes → List ε → Prop} {single : Prop} {all : List ε}
  {s : LogOutputReactor σ ε}

/-- What the log file is when it has been closed. -/
lemma closeLogFile_kept (hc : Faithful c Reads single all) {es : List ε}
    (hcurrent : Current c Reads single s es) (hes : es.Sublist all)
    (hrunning : s.isRunning = true) : ∃ file,
      closeLogFile c s = some { s with codec := none, logFile := file } ∧
        Closed Reads file es := by
  cases hcurrent with
  | closed hstopped => rw [hstopped] at hrunning; cases hrunning
  | @opened file before es codec out _ hcodec hbefore hwrites hfile hown hsingle =>
    rw [closeLogFile, hcodec, hfile]
    by_cases hnil : es = []
    · -- nothing has been written
      subst hnil
      obtain ⟨rfl, rfl⟩ := Prod.mk.inj (Option.some.inj hwrites)
      refine ⟨file, ?_, by rwa [List.append_nil]⟩
      dsimp only
      rw [hc.idle, Option.map_some, Option.getD_some, List.append_nil, List.append_nil]
      cases file with
      | none => rfl
      | some w => rw [Option.getD_some, if_neg hbefore.1]
    · obtain ⟨codec', out', fin, hwrites', hfin, hreads⟩ :=
        hc.session es ((List.sublist_append_right before es).trans hes) hnil hsingle
      obtain ⟨rfl, rfl⟩ := Prod.mk.inj (Option.some.inj (hwrites.symm.trans hwrites'))
      have hne : out ++ fin ≠ [] := fun h => hnil (hc.nothing es (h ▸ hreads))
      have hall : file.getD [] ++ out ++ fin ≠ [] := by
        rw [List.append_assoc]
        exact List.append_ne_nil_of_right_ne_nil _ hne
      dsimp only
      rw [hfin]
      refine ⟨some (file.getD [] ++ out ++ fin), ?_, hall, ?_⟩
      · rw [Option.map_some, Option.getD_some, if_neg hall]
      · rw [List.append_assoc]
        cases file with
        | none =>
          obtain rfl : before = [] := hbefore
          exact hreads
        | some w =>
          exact (hown hnil).resolve_left (Option.some_ne_none w) w _ before es hbefore.2 hreads

/-- A reactor that is not running has closed its file. -/
lemma Current.closed_of_stopped {es : List ε} (h : Current c Reads single s es)
    (hrunning : s.isRunning = false) : Closed Reads s.logFile es := by
  cases h with
  | closed _ _ hfile => exact hfile
  | opened hopen => rw [hopen] at hrunning; cases hrunning

/-- A file that is opened has its old events. -/
lemma openLogFile_current {es : List ε} (hfile : Closed Reads s.logFile es) :
    Current c Reads single { openLogFile c s with isRunning := true } es := by
  rw [← List.append_nil es]
  exact .opened rfl rfl hfile rfl (by rw [openLogFile, List.append_nil]) (fun h => absurd rfl h)
    fun _ => Nat.zero_le 1

lemma start_kept (h : Kept c Reads single s) : Kept c Reads single (start c s) := by
  rw [start]
  split_ifs with hrunning
  · exact h
  · obtain ⟨groups, es, hgroups, hcurrent, hwritten⟩ := h
    have hfile := hcurrent.closed_of_stopped (by simpa using hrunning)
    exact ⟨groups, es, hgroups, openLogFile_current hfile, hwritten⟩

lemma stop_kept (hc : Faithful c Reads single all) (h : Kept c Reads single s)
    (hall : s.written.Sublist all) : ∃ s', stop c s = some s' ∧ Kept c Reads single s' ∧
      s'.written = s.written ∧ s'.isRunning = false := by
  obtain ⟨groups, es, hgroups, hcurrent, hwritten⟩ := h
  have hes : es.Sublist all := (List.sublist_append_right _ es).trans (hwritten ▸ hall)
  rw [stop]
  split_ifs with hrunning
  · obtain ⟨file, hclose, hclosed⟩ := closeLogFile_kept hc hcurrent hes hrunning
    rw [hclose]
    exact ⟨_, rfl, ⟨groups, es, hgroups, .closed rfl rfl hclosed, hwritten⟩, rfl, rfl⟩
  · exact ⟨s, rfl, ⟨groups, es, hgroups, hcurrent, hwritten⟩, rfl, by simpa using hrunning⟩

/-- A file with a time stamp keeps its events. -/
lemma stamp_kept (timestamp : Bytes) {groups : List (List ε)} {es : List ε}
    (hgroups : List.Forall₂ Reads (s.rotated.map Prod.snd) groups)
    (hfile : Closed Reads s.logFile es) (hwritten : s.written = groups.flatten ++ es) :
    ∃ groups', List.Forall₂ Reads ((stamp timestamp s).rotated.map Prod.snd) groups' ∧
      (stamp timestamp s).logFile = none ∧
      (stamp timestamp s).written = groups'.flatten ++ [] := by
  obtain ⟨running, codec, file, rotated, written⟩ := s
  cases file with
  | none =>
    obtain rfl : es = [] := hfile
    exact ⟨groups, hgroups, rfl, hwritten⟩
  | some w =>
    refine ⟨groups ++ [es], ?_, rfl, ?_⟩
    · show List.Forall₂ Reads ((rotated ++ [(timestamp, w)]).map Prod.snd) (groups ++ [es])
      rw [List.map_append]
      exact List.rel_append hgroups (.cons hfile.2 .nil)
    · rw [List.flatten_append, List.flatten_singleton, List.append_nil]
      exact hwritten

lemma stamp_codec (timestamp : Bytes) (s : LogOutputReactor σ ε) :
    (stamp timestamp s).codec = s.codec ∧ (stamp timestamp s).isRunning = s.isRunning ∧
      (stamp timestamp s).written = s.written := by
  rw [stamp]
  cases s.logFile <;> exact ⟨rfl, rfl, rfl⟩

lemma rotate_kept (hc : Faithful c Reads single all) (timestamp : Bytes)
    (h : Kept c Reads single s) (hall : s.written.Sublist all) :
    ∃ s', rotate c timestamp s = some s' ∧ Kept c Reads single s' ∧ s'.written = s.written := by
  rw [rotate]
  by_cases hstamp : (s.rotated.map Prod.fst).contains timestamp = true
  · rw [if_pos hstamp]
    exact ⟨s, rfl, h, rfl⟩
  rw [if_neg hstamp]
  obtain ⟨groups, es, hgroups, hcurrent, hwritten⟩ := h
  have hes : es.Sublist all := (List.sublist_append_right _ es).trans (hwritten ▸ hall)
  by_cases hrunning : s.isRunning = true
  · -- the new file is empty
    rw [if_pos hrunning]
    obtain ⟨file, hclose, hclosed⟩ := closeLogFile_kept hc hcurrent hes hrunning
    rw [hclose]
    set t : LogOutputReactor σ ε := { s with codec := none, logFile := file }
    obtain ⟨groups', hgroups', hfile, hwritten'⟩ :=
      stamp_kept timestamp (s := t) hgroups hclosed hwritten
    obtain ⟨-, hstamped, hsame⟩ := stamp_codec timestamp t
    have hopened : openLogFile c (stamp timestamp t) =
        { openLogFile c (stamp timestamp t) with isRunning := true } := by
      have hrun : (stamp timestamp t).isRunning = true := hstamped.trans hrunning
      rw [← hrun]
      rfl
    refine ⟨_, rfl, ⟨groups', [], hgroups', ?_, hwritten'⟩, hsame⟩
    show Current c Reads single (openLogFile c (stamp timestamp t)) []
    rw [hopened]
    exact openLogFile_current (hfile ▸ rfl)
  · rw [if_neg hrunning]
    have hrunning : s.isRunning = false := by simpa using hrunning
    obtain ⟨groups', hgroups', hfile, hwritten'⟩ :=
      stamp_kept timestamp hgroups (hcurrent.closed_of_stopped hrunning) hwritten
    obtain ⟨hcodec, hstamped, hsame⟩ := stamp_codec timestamp s
    have hnone : s.codec = none := by
      cases hcurrent with
      | closed _ hcodec => exact hcodec
      | opened hopen => rw [hopen] at hrunning; cases hrunning
    exact ⟨_, rfl, ⟨groups', [], hgroups', .closed (hstamped.trans hrunning)
      (hcodec.trans hnone) (hfile ▸ rfl), hwritten'⟩, hsame⟩

/-- An event comes behind what the codec has written. -/
lemma process_kept (hc : Faithful c Reads single all) {codecType eventType : ℕ} {e : ε}
    (h : Kept c Reads single s) (hall : eventType = codecType → (s.written ++ [e]).Sublist all)
    (hown : Appends Reads ∧ ¬ single ∨ OwnFile c codecType single (.process eventType e) s) :
    ∃ s', process c codecType eventType e s = some s' ∧ Kept c Reads single s' ∧
      (s'.written = s.written ∨ eventType = codecType ∧ s'.written = s.written ++ [e]) := by
  rw [process]
  by_cases hprocess : s.isRunning = true ∧ eventType = codecType
  swap
  · rw [if_neg hprocess]
    exact ⟨s, rfl, h, Or.inl rfl⟩
  obtain ⟨hrunning, rfl⟩ := hprocess
  rw [if_pos ⟨hrunning, rfl⟩]
  obtain ⟨groups, events, hgroups, hcurrent, hwritten⟩ := h
  have hall := hall rfl
  cases hcurrent with
  | closed hstopped => rw [hstopped] at hrunning; cases hrunning
  | @opened file before es codec out _ hcodec hbefore hwrites hfile hold hsingle =>
    -- the condition says whether the codec has written before
    have hone : single → es = [] := by
      intro h
      have hstart := (hown.resolve_left fun ha => ha.2 h) e rfl hrunning
      obtain rfl : codec = c.start := Option.some.inj (hcodec.symm.trans (hstart.2 h))
      rcases List.eq_nil_or_concat es with hnil | ⟨init, d, rfl⟩
      · exact hnil
      · rw [List.concat_eq_append, c.writes_snoc, Option.bind_eq_some_iff] at hwrites
        obtain ⟨p, -, hlast⟩ := hwrites
        obtain ⟨q, hq, heq⟩ := Option.map_eq_some_iff.1 hlast
        exact absurd (Prod.mk.inj heq).1 (hc.moves h p.1 d q.1 q.2 hq)
    have hfirst : file = none ∨ Appends Reads := by
      by_cases hnil : es = []
      · rcases hown with ha | hempty
        · exact Or.inr ha.1
        · subst hnil
          obtain ⟨rfl, rfl⟩ := Prod.mk.inj (Option.some.inj hwrites)
          have hlog := ((hempty e rfl hrunning).1 hcodec)
          rw [hfile, List.append_nil] at hlog
          cases file with
          | none => exact Or.inl rfl
          | some w => exact absurd (Option.some.inj hlog) hbefore.1
      · exact hold hnil
    have hsublist : (es ++ [e]).Sublist all := by
      refine List.Sublist.trans ?_ hall
      rw [hwritten, ← List.append_assoc, List.append_assoc]
      exact List.sublist_append_right _ _
    obtain ⟨codec', out', -, hwrites', -, -⟩ := hc.session (es ++ [e]) hsublist (by simp)
      fun h => by rw [hone h]; exact Nat.le_refl 1
    have hsnoc := hwrites'
    rw [c.writes_snoc, hwrites, Option.bind_some] at hsnoc
    obtain ⟨q, hq, heq⟩ := Option.map_eq_some_iff.1 hsnoc
    obtain ⟨rfl, rfl⟩ := Prod.mk.inj heq
    rw [hcodec, Option.bind_some, hq]
    refine ⟨_, rfl, ⟨groups, before ++ (es ++ [e]), hgroups, ?_, ?_⟩, Or.inr ⟨rfl, rfl⟩⟩
    · refine .opened hrunning rfl hbefore hwrites' ?_ (fun _ => hfirst) fun h => ?_
      · show s.logFile.map (· ++ q.2) = _
        rw [hfile, Option.map_some, List.append_assoc]
      · rw [hone h]
        exact Nat.le_refl 1
    · show s.written ++ [e] = _
      rw [hwritten, List.append_assoc, List.append_assoc]

lemma eventsOf_cons (codecType : ℕ) (op : Op ε) (ops : List (Op ε)) :
    eventsOf codecType (op :: ops) = eventsOf codecType [op] ++ eventsOf codecType ops :=
  List.filterMap_append (l := [op])

/-- A step is defined, and the files keep the events. -/
lemma step_kept (hc : Faithful c Reads single all) {codecType : ℕ} {op : Op ε}
    (h : Kept c Reads single s) (hall : (s.written ++ eventsOf codecType [op]).Sublist all)
    (hown : Appends Reads ∧ ¬ single ∨ OwnFile c codecType single op s) :
    ∃ s', step c codecType s op = some s' ∧ Kept c Reads single s' ∧
      s'.written.Sublist (s.written ++ eventsOf codecType [op]) := by
  have hwritten : s.written.Sublist all := (List.sublist_append_left _ _).trans hall
  cases op with
  | start =>
    refine ⟨_, rfl, start_kept h, ?_⟩
    rw [start]
    split_ifs <;> exact List.sublist_append_left _ _
  | process eventType e =>
    have hevent : eventType = codecType → eventsOf codecType [.process eventType e] = [e] :=
      fun heq => by simp [eventsOf, heq]
    obtain ⟨s', hs', hkept, hsame | ⟨heq, hmore⟩⟩ :=
      process_kept hc h (fun heq => hevent heq ▸ hall) hown
    · exact ⟨s', hs', hkept, hsame ▸ List.sublist_append_left _ _⟩
    · exact ⟨s', hs', hkept, by rw [hmore, hevent heq]⟩
  | stop =>
    obtain ⟨s', hs', hkept, hsame, -⟩ := stop_kept hc h hwritten
    exact ⟨s', hs', hkept, hsame ▸ List.sublist_append_left _ _⟩
  | rotate timestamp =>
    obtain ⟨s', hs', hkept, hsame⟩ := rotate_kept hc timestamp h hwritten
    exact ⟨s', hs', hkept, hsame ▸ List.sublist_append_left _ _⟩

lemma run_kept (hc : Faithful c Reads single all) {codecType : ℕ} {ops : List (Op ε)}
    (h : Kept c Reads single s) (hall : (s.written ++ eventsOf codecType ops).Sublist all)
    (hown : Appends Reads ∧ ¬ single ∨
      ∀ op u, HappensIn (step c codecType) s ops op u → OwnFile c codecType single op u) :
    ∃ s', run (step c codecType) s ops = some s' ∧ Kept c Reads single s' ∧
      s'.written.Sublist all := by
  induction ops generalizing s with
  | nil => exact ⟨s, rfl, h, (List.sublist_append_left _ _).trans hall⟩
  | cons op ops ih =>
    rw [eventsOf_cons, ← List.append_assoc] at hall
    obtain ⟨s₁, hs₁, hkept, hwritten⟩ := step_kept hc h
      ((List.sublist_append_left _ _).trans hall)
      (hown.imp_right fun hop => hop op s (happensIn_cons.2 (Or.inl ⟨rfl, rfl⟩)))
    obtain ⟨s', hs', hrest⟩ := ih hkept ((hwritten.append_right _).trans hall)
      (hown.imp_right fun hop f u hu => hop f u (happensIn_cons.2 (Or.inr ⟨s₁, hs₁, hu⟩)))
    exact ⟨s', by rw [run_cons, hs₁, Option.bind_some, hs'], hrest⟩

/-- The files are read back if the codec is faithful, and if every codec has a file of its own or
the outputs of two codecs may stand in one file. -/
lemma readsBack_of_faithful {codecType : ℕ} {ops : List (Op ε)}
    (hc : Faithful c Reads single (eventsOf codecType ops))
    (hown : Appends Reads ∧ ¬ single ∨
      ∀ op u, HappensIn (step c codecType) {} ops op u → OwnFile c codecType single op u) :
    ReadsBack c codecType Reads ops := by
  have hinit : Kept c Reads single ({} : LogOutputReactor σ ε) :=
    ⟨[], [], .nil, .closed rfl rfl rfl, rfl⟩
  obtain ⟨s, hs, hkept, hall⟩ := run_kept hc hinit (List.Sublist.refl _) hown
  obtain ⟨s', hs', ⟨groups, es, hgroups, hcurrent, hwritten⟩, -, hstopped⟩ :=
    stop_kept hc hkept hall
  have hfile := hcurrent.closed_of_stopped hstopped
  refine ⟨s, s', hs, hs', ?_⟩
  rw [files, hwritten]
  cases hlog : s'.logFile with
  | none =>
    rw [hlog] at hfile
    obtain rfl : es = [] := hfile
    exact ⟨groups, by simpa using hgroups, by simp⟩
  | some w =>
    rw [hlog] at hfile
    exact ⟨groups ++ [es], List.rel_append hgroups (.cons hfile.2 .nil), by simp⟩

end LogOutputReactor

/-! ### The codecs -/

variable {φ δ χ θ : Type*}

namespace JSONCodec

variable {γ π : Type*} (y : Yajl γ π φ) (print : LogPrinters φ δ χ θ)
  (conv : LogConversions φ δ χ θ) (order : List (ℕ × Bytes) → List (ℕ × Bytes))
  (objects : List CodecField) (c : FieldCodec)

def outputCodec : OutputCodec (Writer γ) (Event φ δ χ θ) where
  start := {}
  write := write y print (FieldCodec.fields objects c)
  finish w := some (finish y w).2

/-- A new codec reads the events of a text one by one, and nothing behind them. -/
def Restores (out : Bytes) (es : List (Event φ δ χ θ)) : Prop :=
  ∀ m, ∃ s n, run (step y conv order objects c) {} ([.arrive out] ++ List.replicate m .read) =
      some s ∧ .threw ∉ s.results ∧
    List.Forall₂ (SameValues (FieldCodec.fields objects c)) (es.take n) (events s.results) ∧
    min m es.length ≤ n

/-- The codec is configured, and its events are round tripped (`json_round_trip`). -/
structure RoundTripped (es : List (Event φ δ χ θ)) : Prop where
  config : ∃ edits config, FieldCodec.setConfig .json (Vocabulary.make edits) config =
    .ok (objects, c)
  names : ∀ f ∈ FieldCodec.fields objects c, ValidUTF8 f.fieldName
  writable : ∀ e ∈ es, Writable (FieldCodec.fields objects c) e
  prints : LogCodec.PrintsBack conv
  utf8 : ∀ s, ValidUTF8 s → conv.makeUTF8Blob s = some s
  order : ∀ o, (order o).Perm o
  yajl : ∀ ds, ds.Sublist es → ds ≠ [] →
    JSONDocument.Valid (document (FieldCodec.fields objects c) ds) →
      y.RoundTrips (document (FieldCodec.fields objects c) ds)

variable {y print conv order objects c}

lemma writes_outputCodec (w : Writer γ) (es : List (Event φ δ χ θ)) :
    (outputCodec y print objects c).writes w es =
      writeEvents y print (FieldCodec.fields objects c) w es := by
  induction es generalizing w with
  | nil => rfl
  | cons e es ih =>
    rw [OutputCodec.writes, writeEvents]
    exact congrArg _ (funext fun p => by rw [ih])

lemma faithful {es : List (Event φ δ χ θ)} (h : RoundTripped y conv order objects c es) :
    LogOutputReactor.Faithful (outputCodec y print objects c)
      (Restores y conv order objects c) False es where
  session ds hds hne _ := by
    obtain ⟨⟨edits, config, hconfig⟩, hnames, hes, hconv, hutf8, horder, hyajl⟩ := h
    obtain ⟨out, hout, hreads⟩ := json_round_trip y print conv order hconfig hnames
      (fun e he => hes e (hds.subset he)) hconv hutf8 horder (hyajl ds hds hne)
    obtain ⟨⟨w, text⟩, hwrites, rfl⟩ := Option.map_eq_some_iff.1 hout
    refine ⟨w, text, _, (writes_outputCodec _ ds).trans hwrites, rfl, fun m => ?_⟩
    have harrived : arrived [.arrive (text ++ (finish y w).2)] = text ++ (finish y w).2 :=
      List.append_nil _
    obtain ⟨s, n, hrun, hcalm, hevents, hall⟩ :=
      hreads [.arrive (text ++ (finish y w).2)] m (by rw [harrived])
    exact ⟨s, n, hrun, hcalm, hevents, hall harrived⟩
  idle := rfl
  nothing ds hds := by
    obtain ⟨s, n, hrun, -, hevents, hmin⟩ := hds 1
    obtain ⟨s', hrun', hnone, -⟩ := run_nothing y conv order objects c
      ([.arrive []] ++ List.replicate 1 .read) rfl
      (s := ({} : State π φ δ χ θ)) rfl rfl rfl List.not_mem_nil
    obtain rfl : s = s' := Option.some.inj (hrun.symm.trans hrun')
    rw [hnone, List.forall₂_nil_right_iff, List.take_eq_nil_iff] at hevents
    rcases hevents with rfl | hnil
    · exact List.length_eq_zero_iff.1 (by omega)
    · exact hnil
  moves h := h.elim

end JSONCodec

namespace XMLCodec

open JSONCodec (Writable pairs)

variable {ω : Type*} (x : LibXML ω) (print : LogPrinters φ δ χ θ) (conv : LogConversions φ δ χ θ)
  (objects : List CodecField) (c : FieldCodec)

def outputCodec : OutputCodec (Writer ω) (Event φ δ χ θ) where
  start := {}
  write := write x print objects c
  finish w := (finish x w).map Prod.snd

/-- The codec is configured, and its events are round tripped (`xml_round_trip`): each has a mapped
value, and could be the only one. -/
structure RoundTripped (es : List (Event φ δ χ θ)) : Prop where
  config : ∃ edits config, FieldCodec.setConfig .xml (Vocabulary.make edits) config =
    .ok (objects, c)
  tags : x.validName c.eventTag = true ∧
    (c.eventContainerTag ≠ [] → x.validName c.eventContainerTag = true)
  names : ∀ f ∈ FieldCodec.fields objects c, x.validName f.fieldName = true
  writable : ∀ e ∈ es, Writable (FieldCodec.fields objects c) e ∧
    HasText (FieldCodec.fields objects c) e
  values : ∀ e ∈ es, pairs (FieldCodec.fields objects c) e ≠ []
  restorable : ∀ e ∈ es, Restorable objects c [e]
  converts : ConvertsBack conv
  rejects : x.RejectsEmpty
  libxml : ∀ ds, ds.Sublist es → ds ≠ [] → (document objects c ds).Valid x →
    x.RoundTrips (document objects c ds)

variable {x print conv objects c}

lemma writes_outputCodec (w : Writer ω) (es : List (Event φ δ χ θ)) :
    (outputCodec x print objects c).writes w es = writeEvents x print objects c w es := by
  induction es generalizing w with
  | nil => rfl
  | cons e es ih =>
    rw [OutputCodec.writes, writeEvents]
    exact congrArg _ (funext fun p => by rw [ih])

/-- Events that could be the only one come into one document. -/
lemma RoundTripped.restorable_sublist {es ds : List (Event φ δ χ θ)}
    (h : RoundTripped x conv objects c es) (hds : ds.Sublist es)
    (hsingle : c.eventContainerTag = [] → ds.length ≤ 1) : Restorable objects c ds where
  fields hne := by
    obtain ⟨e, ds, rfl⟩ := List.exists_cons_of_ne_nil hne
    exact (h.restorable e (hds.subset List.mem_cons_self)).fields (List.cons_ne_nil e [])
  single := hsingle
  separated :=
    { values := fun e he => h.values e (hds.subset (List.mem_of_mem_dropLast he))
      last := fun e he =>
        (h.restorable e (hds.subset (List.mem_of_mem_getLast? he))).separated.last e rfl
      text := fun e he =>
        (h.restorable e (hds.subset he)).separated.text e List.mem_cons_self }

lemma faithful {es : List (Event φ δ χ θ)} (h : RoundTripped x conv objects c es) :
    LogOutputReactor.Faithful (outputCodec x print objects c)
      (fun out es => Restores x conv objects c es out) (c.eventContainerTag = []) es where
  session ds hds hne hsingle := by
    obtain ⟨edits, config, hconfig⟩ := h.config
    obtain ⟨out, hout, hrestores, -⟩ := xml_round_trip x print conv hconfig h.tags h.names
      (fun e he => h.writable e (hds.subset he)) h.converts h.rejects (h.libxml ds hds hne)
    obtain ⟨⟨w, text⟩, hwrites, hfinish⟩ := Option.bind_eq_some_iff.1 hout
    obtain ⟨q, hq, rfl⟩ := Option.map_eq_some_iff.1 hfinish
    refine ⟨w, text, q.2, (writes_outputCodec _ ds).trans hwrites, ?_,
      hrestores (h.restorable_sublist hds hsingle)⟩
    show (finish x w).map Prod.snd = some q.2
    rw [hq]
    rfl
  idle := rfl
  nothing ds hds := by
    have hone := hds 1
    rw [reads_nothing (Or.inr h.rejects), List.forall₂_nil_right_iff, List.take_eq_nil_iff] at hone
    exact hone.resolve_left one_ne_zero
  moves _ w e w' out hwrite hstart := by
    obtain ⟨g, -, hcalls⟩ := Option.bind_eq_some_iff.1 hwrite
    obtain ⟨calls, -, heq⟩ := Option.map_eq_some_iff.1 hcalls
    have hflag := congrArg Writer.noEventsWritten ((Prod.mk.inj heq).1.trans hstart)
    cases hflag

end XMLCodec

namespace LogCodec

variable (print : LogPrinters φ δ χ θ) (conv : LogConversions φ δ χ θ)
  (stale : Bytes → Bytes) (version : Bytes) (c : LogCodec)

/-- An event comes with the date that the headers would have. -/
def outputCodec : OutputCodec LogCodec (Bytes × Event φ δ χ θ) where
  start := c
  write c e := write print e.1 version c e.2
  finish _ := some []

/-- A new codec reads the events of a text, and then the end of the stream. -/
def Restores (out : Bytes) (es : List (Bytes × Event φ δ χ θ)) : Prop :=
  ∃ es', reads conv stale (es.length + 1) c out = es'.map .event ++ [.eof] ∧
    List.Forall₂ (Restricts c) (es.map Prod.snd) es'

/-- The codec reads the events, and then what is behind them. -/
def ReadsOn (out : Bytes) (es : List (Bytes × Event φ δ χ θ)) : Prop :=
  ∀ n rest, reads conv stale (es.length + n) c (out ++ rest) =
    es.map (fun e => .event (restrict c e.2)) ++ reads conv stale n c rest

/-- The codec is configured, and its events are round tripped (`log_round_trip`). -/
structure RoundTripped (es : List (Bytes × Event φ δ χ θ)) : Prop where
  config : ∃ edits config, setConfig (Vocabulary.make edits) config = .ok c
  prints : PrintsBack conv
  coherent : ∀ e ∈ es, Coherent c e.1 version
  readable : ∀ e ∈ es, EventReadable print conv c e.2

variable {print conv stale version c}

variable (stale) in
/-- The lines are read, and then what is behind them. -/
lemma reads_lines_append (hconv : PrintsBack conv) (hjoins : 1 < c.fields.length → Joins c)
    (hends : EndsEvents c) {es : List (Event φ δ χ θ)}
    (hes : ∀ e ∈ es, EventReadable print conv c e) :
    ∃ out, lines print c es = some out ∧ ∀ n rest,
      reads conv stale (es.length + n) c (out ++ rest) =
        es.map (fun e => .event (restrict c e)) ++ reads conv stale n c rest := by
  induction es with
  | nil => exact ⟨[], rfl, fun n rest => by rw [List.length_nil, Nat.zero_add]; rfl⟩
  | cons e es ih =>
    obtain ⟨tail, htail, hreads⟩ := ih fun e' he' => hes e' (List.mem_cons_of_mem e he')
    obtain ⟨texts, htexts, hread⟩ := read_line stale hconv hjoins hends (hes e List.mem_cons_self)
    refine ⟨texts ++ c.eventJoin ++ tail, by rw [lines, htexts, htail]; rfl, fun n rest => ?_⟩
    have hlength : (e :: es).length + n = es.length + n + 1 := by
      rw [List.length_cons]
      omega
    rw [hlength, reads, List.append_assoc, hread]
    dsimp only
    rw [← reads_congr (consumeVoids_skipEvents _), reads_congr (hends.consumeVoids (tail ++ rest)),
      hreads]
    rfl

/-- Behind the headers, only lines are written. -/
lemma writes_of_wrote {d : LogCodec}
    (hwrote : (c.handleElfHeaders && ! c.wroteElfHeaders) = false)
    (es : List (Bytes × Event φ δ χ θ)) :
    (outputCodec print version d).writes c es =
      (lines print c (es.map Prod.snd)).map fun out => (c, out) := by
  induction es with
  | nil => rfl
  | cons e es ih =>
    rw [OutputCodec.writes, List.map_cons, lines]
    show (write print e.1 version c e.2).bind _ = _
    rw [write, hwrote]
    cases writeFields print c e.2 c.fields with
    | none => rfl
    | some texts =>
      show ((outputCodec print version d).writes c es).map _ = _
      rw [ih]
      cases lines print c (es.map Prod.snd) <;> rfl

variable (print version c) in
/-- The first event comes behind the headers. -/
lemma writes_cons (d : LogCodec) (e : Bytes × Event φ δ χ θ) (es : List (Bytes × Event φ δ χ θ)) :
    ∃ c', (outputCodec print version d).writes c (e :: es) =
      (lines print c ((e :: es).map Prod.snd)).map fun out => (c',
        (if c.handleElfHeaders && ! c.wroteElfHeaders then elfHeaders c e.1 version else []) ++
          out) := by
  cases hheaders : c.handleElfHeaders && ! c.wroteElfHeaders with
  | false => exact ⟨c, writes_of_wrote hheaders (e :: es)⟩
  | true =>
    refine ⟨{ c with wroteElfHeaders := true }, ?_⟩
    have hwrote : ({ c with wroteElfHeaders := true }.handleElfHeaders && ! true) = false :=
      Bool.and_false _
    rw [OutputCodec.writes, List.map_cons, lines]
    show (write print e.1 version c e.2).bind _ = _
    rw [write, hheaders]
    cases writeFields print c e.2 c.fields with
    | none => rfl
    | some texts =>
      show ((outputCodec print version d).writes { c with wroteElfHeaders := true } es).map _ = _
      rw [writes_of_wrote hwrote, lines_wrote]
      cases lines print c (es.map Prod.snd) with
      | none => rfl
      | some rest => simp

lemma readsOn_append : LogOutputReactor.Appends (ReadsOn conv stale c) := by
  intro w v es ds hw hv n rest
  rw [List.length_append, List.map_append, Nat.add_assoc, List.append_assoc, hw, hv,
    List.append_assoc]

variable (stale) in
lemma faithful {es : List (Bytes × Event φ δ χ θ)}
    (h : RoundTripped print conv version c es) :
    LogOutputReactor.Faithful (outputCodec print version c) (ReadsOn conv stale c) False es where
  session ds hds hne _ := by
    obtain ⟨⟨edits, config, hconfig⟩, hconv, hcoherent, hreadable⟩ := h
    obtain ⟨fs, hconfigured⟩ := setConfig_configured (Vocabulary.sound_make edits) hconfig
    obtain ⟨e, ds, rfl⟩ := List.exists_cons_of_ne_nil hne
    have hcoherent := hcoherent e (hds.subset List.mem_cons_self)
    have hlines : ∀ d ∈ (e :: ds).map Prod.snd, EventReadable print conv c d := by
      intro d hd
      obtain ⟨p, hp, rfl⟩ := List.mem_map.1 hd
      exact hreadable p (hds.subset hp)
    obtain ⟨out, hout, hreads⟩ :=
      reads_lines_append stale hconv hcoherent.joins hcoherent.ends hlines
    obtain ⟨c', hwrites⟩ := writes_cons print version c c e ds
    rw [hout, Option.map_some] at hwrites
    refine ⟨c', _, [], hwrites, rfl, fun n rest => ?_⟩
    rw [List.length_map, List.map_map] at hreads
    rw [List.append_nil, List.append_assoc]
    refine Eq.trans ?_ (hreads n rest)
    split_ifs with hheaders
    · have helf : c.handleElfHeaders = true := (Bool.and_eq_true_iff.1 hheaders).1
      have hfields : c.fields ≠ [] := by
        intro hnil
        obtain ⟨b, t, htexts, -⟩ :=
          (hlines e.2 List.mem_cons_self).begins [] (by rw [hnil]; rfl)
        cases htexts
      exact reads_congr (consumeVoids_elfHeaders stale hconfigured (hcoherent.headers helf)
        hcoherent.ends hfields (out ++ rest)) _
    · rfl
  idle := rfl
  nothing ds hds := by
    cases ds with
    | nil => rfl
    | cons d ds => cases (List.cons.inj (hds 0 [])).1
  moves h := h.elim

/-- The events of a file are read, and then its end. -/
lemma ReadsOn.restores {out : Bytes} {es : List (Bytes × Event φ δ χ θ)}
    (h : ReadsOn conv stale c out es)
    (hc : ∃ edits config, setConfig (Vocabulary.make edits) config = .ok c) :
    Restores conv stale c out es := by
  obtain ⟨edits, config, hconfig⟩ := hc
  obtain ⟨fs, hconfigured⟩ := setConfig_configured (Vocabulary.sound_make edits) hconfig
  refine ⟨(es.map Prod.snd).map (restrict c), ?_, ?_⟩
  · have hall := h 1 []
    rw [List.append_nil] at hall
    rw [hall, List.map_map, List.map_map]
    rfl
  · rw [List.forall₂_map_right_iff, List.forall₂_same]
    exact fun e _ => restricts_restrict hconfigured e

end LogCodec

namespace LogOutputReactor

lemma ReadsBack.imp {σ ε : Type*} {c : OutputCodec σ ε} {codecType : ℕ}
    {Reads Reads' : Bytes → List ε → Prop} {ops : List (Op ε)}
    (h : ReadsBack c codecType Reads ops) (himp : ∀ out es, Reads out es → Reads' out es) :
    ReadsBack c codecType Reads' ops := by
  obtain ⟨s, s', hs, hs', groups, hgroups, hwritten⟩ := h
  exact ⟨s, s', hs, hs', groups, hgroups.imp himp, hwritten⟩

/-- The events of a log are read back from its files.  Those of JSON and XML are, if no codec begins
in a file that has content already; without a tag around the events, an XML file may have one event
only. -/
theorem files_read_back {γ π ω : Type*} (conv : LogConversions φ δ χ θ)
    (print : LogPrinters φ δ χ θ) (y : Yajl γ π φ)
    (order : List (ℕ × Bytes) → List (ℕ × Bytes)) (x : LibXML ω) (objects : List CodecField)
    (c : FieldCodec) (stale : Bytes → Bytes) (version : Bytes) (l : LogCodec) (codecType : ℕ) :
    (∀ ops, JSONCodec.RoundTripped y conv order objects c (eventsOf codecType ops) →
        (∀ op s, HappensIn (step (JSONCodec.outputCodec y print objects c) codecType) {} ops op s →
          OwnFile (JSONCodec.outputCodec y print objects c) codecType False op s) →
        ReadsBack (JSONCodec.outputCodec y print objects c) codecType
          (JSONCodec.Restores y conv order objects c) ops) ∧
      (∀ ops, XMLCodec.RoundTripped x conv objects c (eventsOf codecType ops) →
        (∀ op s, HappensIn (step (XMLCodec.outputCodec x print objects c) codecType) {} ops op s →
          OwnFile (XMLCodec.outputCodec x print objects c) codecType (c.eventContainerTag = [])
            op s) →
        ReadsBack (XMLCodec.outputCodec x print objects c) codecType
          (fun out es => XMLCodec.Restores x conv objects c es out) ops) ∧
      ∀ ops, LogCodec.RoundTripped print conv version l (eventsOf codecType ops) →
        ReadsBack (LogCodec.outputCodec print version l) codecType
          (LogCodec.Restores conv stale l) ops := by
  refine ⟨fun ops h hown => ?_, fun ops h hown => ?_, fun ops h => ?_⟩
  · exact readsBack_of_faithful (JSONCodec.faithful h) (Or.inr hown)
  · exact readsBack_of_faithful (XMLCodec.faithful h) (Or.inr hown)
  · have hreads := readsBack_of_faithful (LogCodec.faithful stale h)
      (Or.inl ⟨LogCodec.readsOn_append, not_false⟩)
    exact hreads.imp fun out es hout => hout.restores h.config

/-! ### Small runs -/

/-- Two events, each in its own file. -/
def apartOps {ε : Type*} (d e : ε) : List (Op ε) :=
  [.start, .process 0 d, .rotate [1], .process 0 e, .stop]

/-- Two events with a restart between them. -/
def restartOps {ε : Type*} (d e : ε) : List (Op ε) :=
  [.start, .process 0 d, .stop, .start, .process 0 e]

/-- An event comes into an empty file. -/
def emptyFile {σ ε : Type*} : Op ε → LogOutputReactor σ ε → Bool
  | .process _ _, s => s.logFile == some []
  | _, _ => true

lemma ownFile_of_emptyFile {σ ε : Type*} {c : OutputCodec σ ε} {codecType : ℕ} {single : Prop}
    {ops : List (Op ε)} (hsingle : ¬ single)
    (h : meets (step c codecType) emptyFile {} ops = true) (op : Op ε)
    (s : LogOutputReactor σ ε) (hs : HappensIn (step c codecType) {} ops op s) :
    OwnFile c codecType single op s := by
  rintro e rfl -
  have hfile : (s.logFile == some []) = true := meets_iff.1 h _ s hs
  exact ⟨fun _ => beq_iff_eq.1 hfile, fun h => absurd h hsingle⟩

lemma sublist_pair {α : Type*} {d e : α} {l : List α} (h : l.Sublist [d, e]) (hne : l ≠ []) :
    l = [d] ∨ l = [e] ∨ l = [d, e] := by
  rcases List.sublist_cons_iff.1 h with htail | ⟨r, rfl, hr⟩
  · rcases List.sublist_singleton.1 htail with rfl | rfl
    · exact absurd rfl hne
    · exact Or.inr (Or.inl rfl)
  · rcases List.sublist_singleton.1 hr with rfl | rfl
    · exact Or.inl rfl
    · exact Or.inr (Or.inr rfl)

lemma roundTripped_json :
    JSONCodec.RoundTripped JSONCodec.smallYajl LogCodec.signedDecimals id JSONCodec.jsonFields
      JSONCodec.jsonCodec JSONCodec.jsonEvents where
  config := ⟨JSONCodec.jsonEdits, JSONCodec.jsonConfig, by decide +kernel⟩
  names f hf := by
    have hmem : f ∈ JSONCodec.jsonFields := hf
    simp only [JSONCodec.jsonFields, List.mem_cons, List.not_mem_nil, or_false] at hmem
    rcases hmem with rfl | rfl <;> exact ValidUTF8.of_ascii (by decide +kernel)
  writable := JSONCodec.writable_jsonEvents
  prints := LogCodec.printsBack_signedDecimals
  utf8 _ _ := rfl
  order _ := List.Perm.refl _
  yajl ds hds hne _ := by
    rcases sublist_pair hds hne with rfl | rfl | rfl
    all_goals apply JSONCodec.roundTrips_smallYajl <;> decide +kernel

lemma roundTripped_xml :
    XMLCodec.RoundTripped XMLCodec.smallXML LogCodec.signedDecimals XMLCodec.xmlFields
      XMLCodec.xmlCodec [XMLCodec.xmlEvents[0], XMLCodec.xmlEvents[0]] := by
  have hcontainer : XMLCodec.xmlCodec.eventContainerTag ≠ [] := by decide +kernel
  have hmem : ∀ e ∈ [XMLCodec.xmlEvents[0], XMLCodec.xmlEvents[0]], e = XMLCodec.xmlEvents[0] :=
    fun e he => by simpa using he
  have hfirst : XMLCodec.xmlEvents[0] ∈ XMLCodec.xmlEvents := List.mem_cons_self
  have hvalues : JSONCodec.pairs (FieldCodec.fields XMLCodec.xmlFields XMLCodec.xmlCodec)
      XMLCodec.xmlEvents[0] ≠ [] := by
    simp [JSONCodec.pairs, FieldCodec.fields, XMLCodec.xmlFields, XMLCodec.xmlCodec,
      XMLCodec.xmlEvents, SortedMultimap.values]
  refine ⟨⟨XMLCodec.xmlEdits, XMLCodec.xmlConfig, by decide +kernel⟩, by decide +kernel,
    by decide +kernel, fun e he => ?_, fun e he => hmem e he ▸ hvalues, fun e he => ?_,
    XMLCodec.convertsBack_signedDecimals, rfl, fun ds hds hne _ => ?_⟩
  · exact XMLCodec.writable_xmlEvents e (hmem e he ▸ hfirst)
  · obtain rfl := hmem e he
    refine ⟨fun _ => by decide, fun h => absurd h hcontainer, fun d hd => ?_, fun d hd => ?_,
      fun d hd f hf s hs => ?_⟩
    · cases hd
    · obtain rfl := Option.some.inj hd
      exact ⟨fun h => absurd h hvalues, fun _ _ => by decide +kernel⟩
    · obtain rfl := List.mem_singleton.1 hd
      rcases XMLCodec.text_xmlEvents _ hfirst f hf s hs with rfl | rfl <;> decide +kernel
  · refine ⟨fun _ => ?_, fun h => absurd h hcontainer⟩
    rcases sublist_pair hds hne with rfl | rfl | rfl <;> decide +kernel

lemma roundTripped_log :
    LogCodec.RoundTripped LogCodec.noPrinters LogCodec.signedDecimals (ascii "5") LogCodec.quoted
      (LogCodec.quotedEvents.map fun e => (ascii "now", e)) where
  config := by
    refine ⟨[.addTerm { termId := ascii "t", termType := .int32 },
      .addTerm { termId := ascii "u", termType := .string }],
      { headers := true
        fields := [{ field := ascii "a", term := ascii "t" },
          { field := ascii "b", term := ascii "u", start := some [34] }] }, ?_⟩
    decide +kernel
  prints := LogCodec.printsBack_signedDecimals
  coherent e he := by
    obtain ⟨d, -, rfl⟩ := List.mem_map.1 he
    exact LogCodec.coherent_quoted
  readable e he := by
    obtain ⟨d, hd, rfl⟩ := List.mem_map.1 he
    exact LogCodec.eventReadable_quoted d hd

/-- A rotation between two events, and a restart of a reactor that writes a log. -/
theorem files_read_back_small :
    ReadsBack (JSONCodec.outputCodec JSONCodec.smallYajl LogCodec.noPrinters JSONCodec.jsonFields
        JSONCodec.jsonCodec) 0
      (JSONCodec.Restores JSONCodec.smallYajl LogCodec.signedDecimals id JSONCodec.jsonFields
        JSONCodec.jsonCodec) (apartOps JSONCodec.jsonEvents[0] JSONCodec.jsonEvents[1]) ∧
      ReadsBack (XMLCodec.outputCodec XMLCodec.smallXML LogCodec.noPrinters XMLCodec.xmlFields
        XMLCodec.xmlCodec) 0
      (fun out es => XMLCodec.Restores XMLCodec.smallXML LogCodec.signedDecimals
        XMLCodec.xmlFields XMLCodec.xmlCodec es out)
        (apartOps XMLCodec.xmlEvents[0] XMLCodec.xmlEvents[0]) ∧
      ReadsBack (LogCodec.outputCodec LogCodec.noPrinters (ascii "5") LogCodec.quoted) 0
        (LogCodec.Restores LogCodec.signedDecimals (fun _ => []) LogCodec.quoted)
        (restartOps (ascii "now", LogCodec.quotedEvents[0])
          (ascii "now", LogCodec.quotedEvents[1])) := by
  refine ⟨?_, ?_, ?_⟩
  · exact (files_read_back LogCodec.signedDecimals LogCodec.noPrinters JSONCodec.smallYajl id
      XMLCodec.smallXML JSONCodec.jsonFields JSONCodec.jsonCodec (fun _ => []) (ascii "5")
      LogCodec.quoted 0).1 _ roundTripped_json
      (ownFile_of_emptyFile not_false (by decide +kernel))
  · exact (files_read_back LogCodec.signedDecimals LogCodec.noPrinters JSONCodec.smallYajl id
      XMLCodec.smallXML XMLCodec.xmlFields XMLCodec.xmlCodec (fun _ => []) (ascii "5")
      LogCodec.quoted 0).2.1 _ roundTripped_xml
      (ownFile_of_emptyFile (by decide +kernel) (by decide +kernel))
  · exact (files_read_back LogCodec.signedDecimals LogCodec.noPrinters JSONCodec.smallYajl id
      XMLCodec.smallXML JSONCodec.jsonFields JSONCodec.jsonCodec (fun _ => []) (ascii "5")
      LogCodec.quoted 0).2.2 _ roundTripped_log

/-- The second document of a file is not read. -/
theorem files_not_read_back :
    ¬ ReadsBack (JSONCodec.outputCodec JSONCodec.smallYajl LogCodec.noPrinters JSONCodec.jsonFields
        JSONCodec.jsonCodec) 0
      (JSONCodec.Restores JSONCodec.smallYajl LogCodec.signedDecimals id JSONCodec.jsonFields
        JSONCodec.jsonCodec) (restartOps JSONCodec.jsonEvents[0] JSONCodec.jsonEvents[1]) := by
  set codec := JSONCodec.outputCodec JSONCodec.smallYajl LogCodec.noPrinters JSONCodec.jsonFields
    JSONCodec.jsonCodec
  set ops := restartOps JSONCodec.jsonEvents[0] JSONCodec.jsonEvents[1]
  set text := (JSONCodec.jsonEvents.map fun e => JSONCodec.smallYajl.text
    (JSONCodec.document JSONCodec.jsonFields [e])).flatten
  have hends : ((run (step codec 0) {} ops).bind (stop codec)).map
      (fun s => (s.files, s.written.length)) = some ([text], 2) := by
    decide +kernel
  have hreads : (run (JSONCodec.step JSONCodec.smallYajl LogCodec.signedDecimals id
      JSONCodec.jsonFields JSONCodec.jsonCodec) {}
      ([.arrive text] ++ List.replicate 2 .read)).map
        (fun s => (JSONCodec.events s.results).length) = some 1 := by
    decide +kernel
  rintro ⟨s, s', hs, hs', groups, hgroups, hwritten⟩
  rw [hs, Option.bind_some, hs'] at hends
  obtain ⟨hfiles, hlength⟩ := Prod.mk.inj (Option.some.inj hends)
  rw [hfiles] at hgroups
  obtain ⟨g, groups, hg, hnil, rfl⟩ := List.forall₂_cons_left_iff.1 hgroups
  obtain rfl := List.forall₂_nil_left_iff.1 hnil
  rw [List.flatten_singleton] at hwritten
  obtain ⟨t, n, hrun, -, hevents, hmin⟩ := hg 2
  rw [hrun] at hreads
  have hone : (JSONCodec.events t.results).length = 1 := Option.some.inj hreads
  have htake := hevents.length_eq
  rw [List.length_take, hwritten, hlength, hone] at htake
  rw [hwritten, hlength] at hmin
  omega

end LogOutputReactor

end PionCore.Platform
