/-
# The log input reactor

`LogInputReactor`: a worker looks for log files that have not been consumed yet, opens the first of
them and delivers its events.  `stop` may come at any time; the worker leaves at its next test of
`m_is_running`, and the number of events that were read from an open file goes to a cache file.
The next `start` reads the cache file, and as many events of the file are skipped.  The names of
the consumed files are kept in another cache file.

A step is a section of a function up to the next test of `m_is_running`.  The files in the log
directory stay as they are, a codec reads their records, and `TailF` and `JustOne` are off.
-/
import PionCore.Lib.Runs
import PionCore.Lib.SortedMap
import PionCore.Lib.TextInput
import Mathlib.Logic.Function.Basic

namespace PionCore.Platform

open PionCore.Lib

/-- A log file: the events of its records.  The last record may be ended by the end of the file,
which is then found when the record is read. -/
structure LogFile (ε : Type*) where
  records : List ε
  endsOpen : Bool := false
  /-- no byte can be read -/
  isEmpty : Bool := false
  records_of_empty : isEmpty = true → records = []

/-- The log directory, with the files that match the configured name, in the order of
`std::set`.  A name has no white space and no `|`. -/
structure LogDirectory (ε : Type*) where
  /-- up to the last separator -/
  path : Bytes
  logs : List (Bytes × LogFile ε)
  nodup : (logs.map Prod.fst).Nodup
  name_ne : ∀ l ∈ logs, l.1 ≠ []
  name_space : ∀ l ∈ logs, ∀ c ∈ l.1, isSpace c = false
  path_bar : ∀ l ∈ logs, 124 ∉ path ++ l.1

/-- Where the worker is. -/
inductive LogPlace (ε : Type*) where
  /-- `m_worker_is_active` is false -/
  | inactive
  /-- in front of `checkForLogFiles` -/
  | checking
  /-- in front of `readFromLog` -/
  | opening (name : Bytes) (log : LogFile ε)
  /-- in front of a turn of the loop: the records that are left, and `num_events_to_skip` -/
  | reading (name : Bytes) (log : LogFile ε) (rest : List ε) (skip : ℕ)

/-- `LogInputReactor`.  `delivered` is no member: it records the events that were delivered, with
the names of their logs. -/
structure LogInputReactor (ε : Type*) where
  isRunning : Bool := false
  /-- `stop` waits for the worker -/
  stopping : Bool := false
  worker : LogPlace ε := .inactive
  logsConsumed : List Bytes := []
  historyCache : Option Bytes := none
  /-- the open streams, with the numbers of their events -/
  openStreams : List (Bytes × ℕ) := []
  numEventsReadPreviously : Bytes → Option ℕ := fun _ => none
  currentLogFileCache : Option Bytes := none
  delivered : List (Bytes × ε) := []

inductive LogEvent where
  | start
  /-- the worker goes on -/
  | work
  | stop
  /-- the rest of `stop`, when the worker has finished -/
  | finish
deriving DecidableEq

/-! ### The cache of the current log files -/

/-- What `stop` writes. -/
def writeCurrent (streams : List (Bytes × ℕ)) : Bytes :=
  streams.flatMap fun e => e.1 ++ [124] ++ numeral 10 e.2 ++ [10]

/-- What `start` reads, in `n` turns of the loop at most. -/
def readCurrentFrom : ℕ → Bytes → List (Bytes × ℕ)
  | 0, _ => []
  | n + 1, s =>
      match getline 124 s with
      | (_, none) => []
      | (name, some s) => (name, (readNumber s).1) :: readCurrentFrom n (readNumber s).2

/-- Every turn reads a `|`. -/
def readCurrent (s : Bytes) : List (Bytes × ℕ) := readCurrentFrom s.length s

/-- The cache of one stream is read back.  In front of the name of a second one the end of a line
would be read. -/
lemma readCurrent_writeCurrent {name : Bytes} {n : ℕ} (h : 124 ∉ name) :
    readCurrent (writeCurrent [(name, n)]) = [(name, n)] := by
  have htext : writeCurrent [(name, n)] = name ++ 124 :: (numeral 10 n ++ [10]) := by
    simp [writeCurrent]
  have hlength : (writeCurrent [(name, n)]).length =
      (name.length + (numeral 10 n).length) + 1 + 1 := by
    rw [htext]
    simp
    omega
  rw [readCurrent, hlength, htext, readCurrentFrom, getline_append h]
  simp only
  rw [readNumber_numeral n (by decide) [], readCurrentFrom,
    getline_of_notMem (show (124 : Byte) ∉ [10] by decide)]

namespace LogInputReactor

variable {ε : Type*} (d : LogDirectory ε)

/-- The numbers that `start` finds in the cache, over those in memory. -/
def restored (s : LogInputReactor ε) : Bytes → Option ℕ :=
  match s.currentLogFileCache with
  | none => s.numEventsReadPreviously
  | some cache => (readCurrent cache).foldl (fun m e => Function.update m e.1 (some e.2))
      s.numEventsReadPreviously

def start (s : LogInputReactor ε) : LogInputReactor ε :=
  { s with
    logsConsumed := (s.historyCache.map words).getD s.logsConsumed
    numEventsReadPreviously := s.restored
    currentLogFileCache := none
    isRunning := true
    worker := .checking }

/-- `recordLogFileAsDone`, with the name of the current log file. -/
def recordLogFileAsDone (s : LogInputReactor ε) (name : Bytes) : LogInputReactor ε :=
  { s with
    logsConsumed := s.logsConsumed.insert name
    historyCache := some (s.historyCache.getD [] ++ lines [name]) }

/-- The first part of `checkForLogFiles`: consumed logs that are no longer there are forgotten, and
the history cache is written. -/
def forgets (s : LogInputReactor ε) : LogInputReactor ε :=
  let consumed := s.logsConsumed.filter fun name => (d.logs.map Prod.fst).contains name
  { s with
    logsConsumed := consumed
    historyCache := if consumed = [] then none else some (lines consumed) }

/-- `checkForLogFiles`. -/
def checkForLogFiles (s : LogInputReactor ε) : LogInputReactor ε :=
  let s := s.forgets d
  match d.logs.find? fun l => ! s.logsConsumed.contains l.1 with
  | none => s
  | some l =>
      { s with
        openStreams := SortedMap.assign (d.path ++ l.1) 0 s.openStreams
        worker := .opening l.1 l.2 }

/-- The first part of `readFromLog`.  An empty file is recorded as done, and once more, without a
name, when the exception is caught. -/
def openLog (s : LogInputReactor ε) (name : Bytes) (log : LogFile ε) : LogInputReactor ε :=
  if log.isEmpty then
    { (s.recordLogFileAsDone name).recordLogFileAsDone [] with worker := .checking }
  else
    { s with
      numEventsReadPreviously :=
        Function.update s.numEventsReadPreviously (d.path ++ name) none
      worker := .reading name log log.records
        ((s.numEventsReadPreviously (d.path ++ name)).getD 0) }

/-- The current stream is closed, and its log file is done. -/
def finishLog (s : LogInputReactor ε) (name : Bytes) : LogInputReactor ε :=
  { s with
    openStreams := SortedMap.erase (d.path ++ name) s.openStreams
    worker := .checking }.recordLogFileAsDone name

/-- `deliverEventFromLog`. -/
def deliver (s : LogInputReactor ε) (name : Bytes) (e : ε) : LogInputReactor ε :=
  { s with delivered := s.delivered ++ [(name, e)] }

/-- One turn of the loop of `readFromLog`. -/
def readLog (s : LogInputReactor ε) (name : Bytes) (log : LogFile ε) :
    List ε → ℕ → LogInputReactor ε
  | [], _ => s.finishLog d name
  | e :: rest, skip =>
      let count := (SortedMap.find (d.path ++ name) s.openStreams).getD 0
      let s := { s with
        openStreams := SortedMap.assign (d.path ++ name) (count + 1) s.openStreams }
      match skip with
      | skip + 1 => { s with worker := .reading name log rest skip }
      | 0 =>
          if rest.isEmpty && log.endsOpen then (s.finishLog d name).deliver name e
          else { s with worker := .reading name log rest 0 }.deliver name e

/-- The worker goes on, or finishes if the reactor is not running. -/
def work (s : LogInputReactor ε) : Option (LogInputReactor ε) :=
  match s.worker with
  | .inactive => none
  | .checking => some (if s.isRunning then s.checkForLogFiles d else { s with worker := .inactive })
  | .opening name log =>
      some (if s.isRunning then s.openLog d name log else { s with worker := .inactive })
  | .reading name log rest skip =>
      some (if s.isRunning then s.readLog d name log rest skip else { s with worker := .inactive })

def isInactive (s : LogInputReactor ε) : Bool :=
  match s.worker with
  | .inactive => true
  | .checking | .opening _ _ | .reading _ _ _ _ => false

/-- The rest of `stop`. -/
def finish (s : LogInputReactor ε) : LogInputReactor ε :=
  { s with
    stopping := false
    currentLogFileCache := if s.openStreams = [] then none else some (writeCurrent s.openStreams)
    openStreams := [] }

def step (s : LogInputReactor ε) : LogEvent → Option (LogInputReactor ε)
  | .start => if s.stopping then none else if s.isRunning then some s else some s.start
  | .work => s.work d
  | .stop => if s.isRunning then some { s with isRunning := false, stopping := true } else some s
  | .finish => if s.stopping && s.isInactive then some s.finish else none

/-- The events of a log that were delivered. -/
def deliveredOf (s : LogInputReactor ε) (name : Bytes) : List ε :=
  (s.delivered.filter (·.1 = name)).map Prod.snd

/-! ### The progress in a log -/

/-- The events of a log that the reactor will not deliver again: those that were read and those
that will be skipped.  While the file is not open, the number was read previously. -/
def progress (s : LogInputReactor ε) (name : Bytes) : ℕ :=
  match SortedMap.find (d.path ++ name) s.openStreams with
  | none => (s.restored (d.path ++ name)).getD 0
  | some n =>
      match s.worker with
      | .inactive | .checking => n
      | .opening _ _ => (s.numEventsReadPreviously (d.path ++ name)).getD 0
      | .reading _ _ _ skip => n + skip

/-- The log is not done yet. -/
def Pending (s : LogInputReactor ε) (l : Bytes × LogFile ε) : Prop :=
  l ∈ d.logs ∧ l.1 ∉ s.logsConsumed

/-- The number of events that were read from the open file. -/
def countOf (s : LogInputReactor ε) (name : Bytes) : Option ℕ :=
  SortedMap.find (d.path ++ name) s.openStreams

/-- The events that were read previously, and that the worker has to skip yet in the file that is
open or about to be opened. -/
def eventsToSkip (s : LogInputReactor ε) : ℕ :=
  match s.worker with
  | .inactive | .checking => 0
  | .opening name _ => (s.numEventsReadPreviously (d.path ++ name)).getD 0
  | .reading _ _ _ skip => skip

/-- What `stop` finds: no event has to be skipped, and at most one stream is open. -/
def StopsWell (s : LogInputReactor ε) : Prop :=
  s.openStreams.length ≤ 1 ∧ s.eventsToSkip d = 0

instance (s : LogInputReactor ε) : Decidable (s.StopsWell d) :=
  inferInstanceAs (Decidable (_ ∧ _))

/-- Where the worker is, the open streams are as its place says. -/
def AtPlace (s : LogInputReactor ε) : Prop :=
  match s.worker with
  | .inactive => s.isRunning = false
  | .checking => ∀ l, s.Pending d l → s.countOf d l.1 = none
  | .opening name log => s.Pending d (name, log) ∧
      ∀ l, s.Pending d l → s.countOf d l.1 = if l.1 = name then some 0 else none
  | .reading name log rest skip => s.Pending d (name, log) ∧
      ∃ n, rest = log.records.drop n ∧ n + skip ≤ log.records.length ∧
        ∀ l, s.Pending d l → s.countOf d l.1 = if l.1 = name then some n else none

/-- The history cache has the names of the consumed logs. -/
def HistoryAgrees (s : LogInputReactor ε) : Prop :=
  s.historyCache = none ∧ s.logsConsumed = [] ∨
    ∃ names, s.historyCache = some (lines names) ∧
      (∀ name ∈ names, ∀ c ∈ name, isSpace c = false) ∧
      ∀ name, name ≠ [] → (name ∈ names ↔ name ∈ s.logsConsumed)

/-- The invariant of the runs. -/
structure Sound (s : LogInputReactor ε) : Prop where
  history : s.HistoryAgrees
  space : ∀ name ∈ s.logsConsumed, ∀ c ∈ name, isSpace c = false
  consumed : ∀ l ∈ d.logs, l.1 ∈ s.logsConsumed → s.deliveredOf l.1 = l.2.records
  pending : ∀ l, s.Pending d l → s.progress d l.1 ≤ l.2.records.length ∧
    s.deliveredOf l.1 = l.2.records.take (s.progress d l.1)
  place : s.AtPlace d
  keys : ∀ e ∈ s.openStreams, ∃ l ∈ d.logs, e.1 = d.path ++ l.1
  running : s.isRunning = true → s.stopping = false ∧ s.currentLogFileCache = none
  stopping : s.stopping = true → s.currentLogFileCache = none
  off : s.isRunning = false → s.StopsWell d
  stopped : s.isRunning = false → s.stopping = false → s.openStreams = [] ∧ s.isInactive = true

section Sound

variable {d} {s s' : LogInputReactor ε} {name : Bytes} {log : LogFile ε} {l : Bytes × LogFile ε}

lemma progress_of_none (h : s.countOf d name = none) :
    s.progress d name = (s.restored (d.path ++ name)).getD 0 := by
  rw [countOf] at h
  rw [progress, h]

lemma restored_of_none (h : s.currentLogFileCache = none) :
    s.restored = s.numEventsReadPreviously := by
  rw [restored, h]

/-- A log of the directory is known by its name. -/
lemma eq_of_name {l l' : Bytes × LogFile ε} (hl : l ∈ d.logs) (hl' : l' ∈ d.logs)
    (h : l.1 = l'.1) : l = l' :=
  List.inj_on_of_nodup_map d.nodup hl hl' h

lemma Sound.cache_of_running (h : s.Sound d) (hrun : s.isRunning = true) :
    s.restored = s.numEventsReadPreviously :=
  restored_of_none (h.running hrun).2

/-- `start` finds the consumed logs in the history. -/
lemma Sound.mem_start (h : s.Sound d) (hname : name ≠ []) :
    name ∈ s.start.logsConsumed ↔ name ∈ s.logsConsumed := by
  rcases h.history with ⟨hnone, -⟩ | ⟨names, hsome, hspace, hmem⟩
  · simp [LogInputReactor.start, hnone]
  · simp [LogInputReactor.start, hsome, words_lines hspace, hmem name hname, hname]

lemma Sound.pending_start (h : s.Sound d) : s.start.Pending d l ↔ s.Pending d l := by
  constructor
  · rintro ⟨hl, hnot⟩
    exact ⟨hl, fun hmem => hnot ((h.mem_start (d.name_ne l hl)).2 hmem)⟩
  · rintro ⟨hl, hnot⟩
    exact ⟨hl, fun hmem => hnot ((h.mem_start (d.name_ne l hl)).1 hmem)⟩

/-- `start` keeps the progress in every log: what the cache has said is in memory now. -/
lemma Sound.start (h : s.Sound d) (hoff : s.isRunning = false) (hstopping : s.stopping = false) :
    s.start.Sound d := by
  obtain ⟨hstreams, -⟩ := h.stopped hoff hstopping
  have hnone : ∀ name, s.countOf d name = none := by
    intro name
    rw [countOf, hstreams, SortedMap.find_nil]
  have hnone' : ∀ name, s.start.countOf d name = none := hnone
  have hprogress : ∀ name, s.start.progress d name = s.progress d name := by
    intro name
    rw [progress_of_none (hnone name), progress_of_none (hnone' name)]
    rfl
  refine ⟨?_, ?_, ?_, ?_, fun l _ => hnone' l.1, h.keys, fun _ => ⟨hstopping, rfl⟩,
    fun _ => rfl, fun hf => by simp [LogInputReactor.start] at hf,
    fun hf => by simp [LogInputReactor.start] at hf⟩
  · rcases h.history with ⟨hno, hempty⟩ | ⟨names, hsome, hspace, hmem⟩
    · exact Or.inl ⟨hno, by simp [LogInputReactor.start, hno, hempty]⟩
    · exact Or.inr ⟨names, hsome, hspace, fun name hname =>
        (hmem name hname).trans (h.mem_start hname).symm⟩
  · rcases h.history with ⟨hno, hempty⟩ | ⟨names, hsome, hspace, hmem⟩
    · intro name hname
      rw [show s.start.logsConsumed = s.logsConsumed by simp [LogInputReactor.start, hno]] at hname
      exact h.space name hname
    · intro name hname
      have hin : name ∈ words (lines names) := by
        simpa [LogInputReactor.start, hsome] using hname
      rw [words_lines hspace] at hin
      exact hspace name (List.mem_filter.1 hin).1
  · intro l hl hmem
    exact h.consumed l hl ((h.mem_start (d.name_ne l hl)).1 hmem)
  · intro l hl
    rw [hprogress]
    exact h.pending l (h.pending_start.1 hl)

lemma Sound.stop (h : s.Sound d) (hrun : s.isRunning = true) (hstop : s.StopsWell d) :
    { s with isRunning := false, stopping := true }.Sound d := by
  have hcache := (h.running hrun).2
  refine ⟨h.history, h.space, h.consumed, h.pending, ?_, h.keys, by simp, fun _ => hcache,
    fun _ => hstop, by simp⟩
  have hplace := h.place
  unfold AtPlace at hplace ⊢
  cases hw : s.worker with
  | inactive => rfl
  | checking | opening name log | reading name log rest skip =>
    simp only [hw] at hplace
    exact hplace

lemma isInactive_iff : s.isInactive = true ↔ s.worker = .inactive := by
  unfold isInactive
  split
  case h_1 hw => simp [hw]
  all_goals simp_all

/-- The rest of `stop` keeps the progress: what the memory has said is in the cache now. -/
lemma Sound.finish (h : s.Sound d) (hstopping : s.stopping = true)
    (hinactive : s.isInactive = true) : s.finish.Sound d := by
  have hw := isInactive_iff.1 hinactive
  have hoff : s.isRunning = false := by
    by_contra hon
    exact absurd hstopping (by simp [(h.running (by simpa using hon)).1])
  have hcache := restored_of_none (h.stopping hstopping)
  have hnone : ∀ name, s.finish.countOf d name = none := fun name => SortedMap.find_nil
  have hprogress : ∀ name, s.finish.progress d name = s.progress d name := by
    intro name
    rw [progress_of_none (hnone name)]
    have hone := (h.off hoff).1
    match hstreams : s.openStreams with
    | [] =>
      have hbefore : s.countOf d name = none := by rw [countOf, hstreams, SortedMap.find_nil]
      rw [progress_of_none hbefore, hcache]
      simp [restored, LogInputReactor.finish, hstreams]
    | [(key, n)] =>
      obtain ⟨l, hl, hkey⟩ := h.keys (key, n) (by simp [hstreams])
      have hbar : 124 ∉ key := by
        rw [show key = d.path ++ l.1 from hkey]
        exact d.path_bar l hl
      have hrestored : s.finish.restored =
          Function.update s.numEventsReadPreviously key (some n) := by
        simp [restored, LogInputReactor.finish, hstreams, readCurrent_writeCurrent hbar]
      rw [hrestored]
      by_cases hname : d.path ++ name = key
      · rw [progress, hstreams, ← hname, SortedMap.find_cons_self, Function.update_self, hw]
        rfl
      · have hbefore : s.countOf d name = none := by
          rw [countOf, hstreams, SortedMap.find_cons_of_ne (Ne.symm hname), SortedMap.find_nil]
        rw [progress_of_none hbefore, hcache, Function.update_of_ne hname]
    | _ :: _ :: _ => simp [hstreams] at hone
  refine ⟨h.history, h.space, h.consumed, ?_, ?_, by simp [LogInputReactor.finish], ?_,
    fun hf => by simp [LogInputReactor.finish] at hf, fun _ => ?_, fun _ _ => ⟨rfl, hinactive⟩⟩
  · intro l hl
    rw [hprogress]
    exact h.pending l hl
  · have hworker : s.finish.worker = .inactive := hw
    rw [AtPlace, hworker]
    exact hoff
  · intro hon
    rw [show s.finish.isRunning = s.isRunning from rfl, hoff] at hon
    exact absurd hon (by simp)
  · refine ⟨by simp [LogInputReactor.finish], ?_⟩
    show (match s.worker with
      | .inactive | .checking => 0
      | .opening _ _ => _
      | .reading _ _ _ _ => _) = 0
    rw [hw]

/-- The worker finds that the reactor is not running, and finishes. -/
lemma Sound.leaves (h : s.Sound d) (hoff : s.isRunning = false) :
    { s with worker := .inactive }.Sound d := by
  have hstop := h.off hoff
  have hprogress : ∀ l, s.Pending d l →
      { s with worker := .inactive }.progress d l.1 = s.progress d l.1 := by
    intro l hl
    have hplace := h.place
    cases hcount : SortedMap.find (d.path ++ l.1) s.openStreams with
    | none => simp only [progress, hcount]; rfl
    | some n =>
      unfold AtPlace at hplace
      unfold StopsWell eventsToSkip at hstop
      cases hw : s.worker with
      | inactive => simp [progress, hcount, hw]
      | checking => simp [progress, hcount, hw]
      | opening name log =>
        rw [hw] at hplace hstop
        have hfind := hplace.2 l hl
        rw [countOf, hcount] at hfind
        split_ifs at hfind with hname
        rw [← hname] at hstop
        simp [progress, hcount, hw, hstop.2, Option.some.inj hfind]
      | reading name log rest skip =>
        rw [hw] at hstop
        simp [progress, hcount, hw, show skip = 0 from hstop.2]
  refine ⟨h.history, h.space, h.consumed, ?_, hoff, h.keys, h.running, h.stopping,
    fun _ => ⟨hstop.1, rfl⟩, fun _ hstopped => ⟨(h.stopped hoff hstopped).1, rfl⟩⟩
  intro l hl
  have hl : s.Pending d l := hl
  rw [hprogress l hl]
  exact h.pending l hl

lemma HistoryAgrees.record (h : s.HistoryAgrees) (hname : ∀ c ∈ name, isSpace c = false) :
    (s.recordLogFileAsDone name).HistoryAgrees := by
  refine Or.inr ?_
  rcases h with ⟨hnone, hempty⟩ | ⟨names, hsome, hspace, hmem⟩
  · refine ⟨[name], by simp [recordLogFileAsDone, hnone], by simpa using hname, ?_⟩
    simp [recordLogFileAsDone, hempty]
  · refine ⟨names ++ [name], by simp [recordLogFileAsDone, hsome, lines_append], ?_, ?_⟩
    · intro t ht
      rcases List.mem_append.1 ht with ht | ht
      · exact hspace t ht
      · exact List.mem_singleton.1 ht ▸ hname
    · intro t ht
      simp [recordLogFileAsDone, hmem t ht, or_comm]

lemma mem_record {other : Bytes} :
    other ∈ (s.recordLogFileAsDone name).logsConsumed ↔ other = name ∨ other ∈ s.logsConsumed := by
  simp [recordLogFileAsDone]

/-- The first log that is not consumed, if there is one. -/
lemma find_pending (hl : d.logs.find? (fun l => ! s.logsConsumed.contains l.1) = some l) :
    s.Pending d l := by
  have hnot := List.find?_some hl
  exact ⟨List.mem_of_find?_eq_some hl, by simpa using hnot⟩

lemma mem_forgets (hl : l ∈ d.logs) :
    l.1 ∈ (s.forgets d).logsConsumed ↔ l.1 ∈ s.logsConsumed := by
  have hin : l.1 ∈ d.logs.map Prod.fst := List.mem_map_of_mem hl
  simp only [forgets, List.mem_filter, List.contains_iff_mem]
  exact and_iff_left hin

lemma pending_forgets : (s.forgets d).Pending d l ↔ s.Pending d l :=
  and_congr_right fun hl => not_congr (mem_forgets hl)

/-- The place of the worker, when the same logs are still to be consumed. -/
lemma AtPlace.of_pending {t : LogInputReactor ε} (h : s.AtPlace d) (hworker : t.worker = s.worker)
    (hrunning : t.isRunning = s.isRunning) (hstreams : t.openStreams = s.openStreams)
    (hpending : ∀ l, t.Pending d l ↔ s.Pending d l) : t.AtPlace d := by
  have hcount : ∀ name, t.countOf d name = s.countOf d name := fun name => by
    rw [countOf, countOf, hstreams]
  unfold AtPlace at h ⊢
  rw [hworker]
  cases hw : s.worker with
  | inactive =>
    rw [hw] at h
    exact hrunning.trans h
  | checking =>
    rw [hw] at h
    exact fun l hl => (hcount l.1).trans (h l ((hpending l).1 hl))
  | opening name log =>
    rw [hw] at h
    exact ⟨(hpending _).2 h.1, fun l hl => (hcount l.1).trans (h.2 l ((hpending l).1 hl))⟩
  | reading name log rest skip =>
    rw [hw] at h
    obtain ⟨hlog, n, hrest, hle, hreads⟩ := h
    exact ⟨(hpending _).2 hlog, n, hrest, hle,
      fun l hl => (hcount l.1).trans (hreads l ((hpending l).1 hl))⟩

lemma Sound.forgets (h : s.Sound d) : (s.forgets d).Sound d := by
  have hspace : ∀ name ∈ (s.forgets d).logsConsumed, ∀ c ∈ name,
      isSpace c = false := fun name hname => h.space name (List.mem_filter.1 hname).1
  refine ⟨?_, hspace, ?_, ?_, ?_, h.keys, h.running, h.stopping, h.off, h.stopped⟩
  · by_cases hempty : (s.forgets d).logsConsumed = []
    · exact Or.inl ⟨if_pos hempty, hempty⟩
    · exact Or.inr ⟨_, if_neg hempty, hspace, fun _ _ => Iff.rfl⟩
  · exact fun l hl hmem => h.consumed l hl ((mem_forgets hl).1 hmem)
  · exact fun l hl => h.pending l (pending_forgets.1 hl)
  · exact h.place.of_pending rfl rfl rfl fun _ => pending_forgets

/-- A log is found, and its stream is among the open ones with no event read. -/
lemma Sound.registers (h : s.Sound d) (hrun : s.isRunning = true) (hw : s.worker = .checking)
    (hl : s.Pending d l) :
    { s with openStreams := SortedMap.assign (d.path ++ l.1) 0 s.openStreams,
             worker := .opening l.1 l.2 }.Sound d := by
  have hplace := h.place
  unfold AtPlace at hplace
  rw [hw] at hplace
  have hcount : ∀ l', s.Pending d l' → SortedMap.find (d.path ++ l'.1)
      (SortedMap.assign (d.path ++ l.1) 0 s.openStreams) =
        if l'.1 = l.1 then some 0 else none := by
    intro l' hl'
    split_ifs with hname
    · rw [hname, SortedMap.find_assign_self]
    · rw [SortedMap.find_assign_of_ne (by simpa using hname)]
      exact hplace l' hl'
  refine ⟨h.history, h.space, h.consumed, ?_, ⟨hl, hcount⟩, ?_, h.running, h.stopping,
    fun hoff => absurd hrun (by simp [show s.isRunning = false from hoff]),
    fun hoff => absurd hrun (by simp [show s.isRunning = false from hoff])⟩
  · intro l' hl'
    have hl' : s.Pending d l' := hl'
    have hbefore := h.pending l' hl'
    rw [progress_of_none (hplace l' hl'), h.cache_of_running hrun] at hbefore
    have hafter : progress d { s with
        openStreams := SortedMap.assign (d.path ++ l.1) 0 s.openStreams
        worker := .opening l.1 l.2 } l'.1 =
          (s.numEventsReadPreviously (d.path ++ l'.1)).getD 0 := by
      rw [progress, hcount l' hl']
      split_ifs with hname
      · rfl
      · exact congrArg (Option.getD · 0) (congrFun (h.cache_of_running hrun) _)
    rw [hafter]
    exact hbefore
  · intro e he
    rcases SortedMap.mem_assign he with rfl | he
    · exact ⟨l, hl.1, rfl⟩
    · exact h.keys e he

lemma Sound.checkForLogFiles (h : s.Sound d) (hrun : s.isRunning = true)
    (hw : s.worker = .checking) : (s.checkForLogFiles d).Sound d := by
  unfold LogInputReactor.checkForLogFiles
  simp only
  split
  · exact h.forgets
  · rename_i l hl
    exact h.forgets.registers hrun hw (find_pending hl)

/-- A log is done that was delivered to its end.  Its stream may be left among the open ones. -/
lemma Sound.done (h : s.Sound d) (hrun : s.isRunning = true) (hl : l ∈ d.logs)
    (hall : s.deliveredOf l.1 = l.2.records) (streams : List (Bytes × ℕ))
    (hkeys : ∀ e ∈ streams, e ∈ s.openStreams)
    (hother : ∀ l', s.Pending d l' → l'.1 ≠ l.1 →
      SortedMap.find (d.path ++ l'.1) streams = none ∧ s.countOf d l'.1 = none) :
    { s.recordLogFileAsDone l.1 with openStreams := streams, worker := .checking }.Sound d := by
  have hpending : ∀ l', Pending d { s.recordLogFileAsDone l.1 with
      openStreams := streams, worker := .checking } l' → s.Pending d l' ∧ l'.1 ≠ l.1 := by
    rintro l' ⟨hl', hnot⟩
    obtain ⟨hne, hnot⟩ := not_or.1 (mt mem_record.2 hnot)
    exact ⟨⟨hl', hnot⟩, hne⟩
  refine ⟨h.history.record (d.name_space l hl), ?_, ?_, ?_, ?_, ?_, h.running, h.stopping,
    fun hoff => absurd hrun (by simp [show s.isRunning = false from hoff]),
    fun hoff => absurd hrun (by simp [show s.isRunning = false from hoff])⟩
  · intro name hname
    rcases mem_record.1 hname with rfl | hname
    · exact d.name_space l hl
    · exact h.space name hname
  · intro l' hl' hmem
    rcases mem_record.1 hmem with hname | hmem
    · obtain rfl := eq_of_name hl' hl hname
      exact hall
    · exact h.consumed l' hl' hmem
  · intro l' hl'
    obtain ⟨hl', hne⟩ := hpending l' hl'
    obtain ⟨hnone, hbefore⟩ := hother l' hl' hne
    have hprogress := h.pending l' hl'
    rw [progress_of_none hbefore] at hprogress
    rw [progress_of_none (by exact hnone)]
    exact hprogress
  · intro l' hl'
    obtain ⟨hl', hne⟩ := hpending l' hl'
    exact (hother l' hl' hne).1
  · exact fun e he => h.keys e (hkeys e he)

/-- No log has an empty name. -/
lemma Sound.record_nil (h : s.Sound d) : (s.recordLogFileAsDone []).Sound d := by
  have hmem : ∀ l ∈ d.logs, l.1 ∈ (s.recordLogFileAsDone []).logsConsumed ↔
      l.1 ∈ s.logsConsumed := by
    intro l hl
    rw [mem_record]
    exact or_iff_right (d.name_ne l hl)
  have hpending : ∀ l, (s.recordLogFileAsDone []).Pending d l ↔ s.Pending d l := fun l =>
    and_congr_right fun hl => not_congr (hmem l hl)
  refine ⟨h.history.record (by simp), ?_, fun l hl hin => h.consumed l hl ((hmem l hl).1 hin),
    fun l hl => h.pending l ((hpending l).1 hl), ?_, h.keys, h.running, h.stopping, h.off,
    h.stopped⟩
  · intro name hname
    rcases mem_record.1 hname with rfl | hname
    · simp
    · exact h.space name hname
  · exact h.place.of_pending rfl rfl rfl hpending

lemma Sound.openLog (h : s.Sound d) (hrun : s.isRunning = true)
    (hw : s.worker = .opening name log) : (s.openLog d name log).Sound d := by
  have hplace := h.place
  unfold AtPlace at hplace
  rw [hw] at hplace
  obtain ⟨hlog, hcount⟩ := hplace
  have hprogress : s.progress d name = (s.numEventsReadPreviously (d.path ++ name)).getD 0 := by
    have hfind := hcount (name, log) hlog
    rw [if_pos rfl] at hfind
    rw [countOf] at hfind
    rw [progress, hfind, hw]
  have hnone : ∀ l, s.Pending d l → l.1 ≠ name → s.countOf d l.1 = none := by
    intro l hl hne
    rw [hcount l hl, if_neg hne]
  have hbefore := h.pending (name, log) hlog
  unfold LogInputReactor.openLog
  split_ifs with hempty
  · -- nothing can be read from an empty file, so that it was delivered to its end
    have hall : s.deliveredOf name = log.records := by
      rw [hbefore.2, log.records_of_empty hempty, List.take_nil]
    exact (h.done (l := (name, log)) hrun hlog.1 hall s.openStreams (fun _ he => he)
      fun l hl hne => ⟨hnone l hl hne, hnone l hl hne⟩).record_nil
  · refine ⟨h.history, h.space, h.consumed, ?_, ⟨hlog, 0, rfl, ?_, hcount⟩, h.keys, h.running,
      h.stopping, fun hoff => absurd hrun (by simp [show s.isRunning = false from hoff]),
      fun hoff => absurd hrun (by simp [show s.isRunning = false from hoff])⟩
    · intro l hl
      have hl : s.Pending d l := hl
      have hafter := h.pending l hl
      by_cases hname : l.1 = name
      · have hsame : progress d { s with
            numEventsReadPreviously := Function.update s.numEventsReadPreviously
              (d.path ++ name) none
            worker := .reading name log log.records
              ((s.numEventsReadPreviously (d.path ++ name)).getD 0) } l.1 =
                s.progress d l.1 := by
          have hfind := hcount l hl
          rw [if_pos hname, countOf] at hfind
          rw [hname, hprogress, progress, ← hname, hfind]
          simp
        rw [hsame]
        exact hafter
      · rw [progress_of_none (hnone l hl hname), h.cache_of_running hrun] at hafter
        have hrestored : restored { s with
            numEventsReadPreviously := Function.update s.numEventsReadPreviously
              (d.path ++ name) none
            worker := .reading name log log.records
              ((s.numEventsReadPreviously (d.path ++ name)).getD 0) } =
                Function.update s.numEventsReadPreviously (d.path ++ name) none :=
          restored_of_none (h.running hrun).2
        rw [progress_of_none (by exact hnone l hl hname), hrestored,
          Function.update_of_ne (by simpa using hname)]
        exact hafter
    · rw [Nat.zero_add, ← hprogress]
      exact hbefore.1

lemma deliveredOf_deliver (s : LogInputReactor ε) (name other : Bytes) (e : ε) :
    (s.deliver name e).deliveredOf other =
      s.deliveredOf other ++ if name = other then [e] else [] := by
  simp only [deliveredOf, deliver, List.filter_append, List.map_append]
  by_cases h : name = other <;> simp [h]

/-- In a turn of the loop a record is counted that was read from the log. -/
lemma Sound.counts (h : s.Sound d) (hrun : s.isRunning = true) {rest : List ε} {e : ε}
    {skip n : ℕ} (hlog : s.Pending d (name, log)) (hrest : e :: rest = log.records.drop n)
    (hle : n + skip ≤ log.records.length)
    (hcount : ∀ l, s.Pending d l → s.countOf d l.1 = if l.1 = name then some n else none)
    {delivered : List (Bytes × ε)} (hdelivered : ∀ l ∈ d.logs, l.1 ≠ name →
      { s with delivered := delivered }.deliveredOf l.1 = s.deliveredOf l.1)
    (hname : { s with delivered := delivered }.deliveredOf name =
      log.records.take (n + 1 + (skip - 1))) :
    { s with openStreams := SortedMap.assign (d.path ++ name) (n + 1) s.openStreams,
             worker := .reading name log rest (skip - 1), delivered := delivered }.Sound d := by
  have hlt : n < log.records.length := by
    by_contra hge
    rw [List.drop_eq_nil_of_le (Nat.le_of_not_lt hge)] at hrest
    exact List.cons_ne_nil _ _ hrest
  have hfind : ∀ l, s.Pending d l → SortedMap.find (d.path ++ l.1)
      (SortedMap.assign (d.path ++ name) (n + 1) s.openStreams) =
        if l.1 = name then some (n + 1) else none := by
    intro l hl
    split_ifs with heq
    · rw [heq, SortedMap.find_assign_self]
    · rw [SortedMap.find_assign_of_ne (by simpa using heq)]
      exact (hcount l hl).trans (if_neg heq)
  refine ⟨h.history, h.space, ?_, ?_, ⟨hlog, n + 1, ?_, by omega, hfind⟩, ?_, h.running,
    h.stopping, fun hoff => absurd hrun (by simp [show s.isRunning = false from hoff]),
    fun hoff => absurd hrun (by simp [show s.isRunning = false from hoff])⟩
  · intro l hl hmem
    have hne : l.1 ≠ name := fun heq => hlog.2 (heq ▸ hmem)
    exact (hdelivered l hl hne).trans (h.consumed l hl hmem)
  · intro l hl
    have hl : s.Pending d l := hl
    by_cases heq : l.1 = name
    · obtain rfl := eq_of_name hl.1 hlog.1 heq
      rw [progress, hfind _ hl, if_pos rfl]
      exact ⟨show n + 1 + (skip - 1) ≤ log.records.length by omega, hname⟩
    · have hnone : s.countOf d l.1 = none := (hcount l hl).trans (if_neg heq)
      have hbefore := h.pending l hl
      rw [progress_of_none hnone] at hbefore
      rw [progress_of_none (by exact (hfind l hl).trans (if_neg heq))]
      exact ⟨hbefore.1, (hdelivered l hl.1 heq).trans hbefore.2⟩
  · rw [← List.tail_drop, ← hrest, List.tail_cons]
  · intro e he
    rcases SortedMap.mem_assign he with rfl | he
    · exact ⟨_, hlog.1, rfl⟩
    · exact h.keys e he

/-- The events of the open log: as many were delivered as will not be delivered again. -/
lemma Sound.deliveredOf_reading (h : s.Sound d) {rest : List ε} {skip n : ℕ}
    (hlog : s.Pending d (name, log)) (hcount : s.countOf d name = some n)
    (hw : s.worker = .reading name log rest skip) :
    s.deliveredOf name = log.records.take (n + skip) := by
  have hbefore := (h.pending (name, log) hlog).2
  rw [progress, show SortedMap.find (d.path ++ (name, log).1) s.openStreams = some n from hcount,
    hw] at hbefore
  exact hbefore

/-- The log that is read is done when all of its events were delivered. -/
lemma Sound.finishLog (h : s.Sound d) (hrun : s.isRunning = true)
    (hlog : (name, log) ∈ d.logs) (hall : s.deliveredOf name = log.records)
    (hnone : ∀ l, s.Pending d l → l.1 ≠ name → s.countOf d l.1 = none) :
    (s.finishLog d name).Sound d := by
  refine h.done (l := (name, log)) hrun hlog hall _
    (fun e he => SortedMap.mem_of_mem_erase he) fun l hl hne => ⟨?_, hnone l hl hne⟩
  rw [SortedMap.find_erase_of_ne (by simpa using hne)]
  exact hnone l hl hne

lemma Sound.readLog (h : s.Sound d) (hrun : s.isRunning = true) {rest : List ε} {skip : ℕ}
    (hw : s.worker = .reading name log rest skip) : (s.readLog d name log rest skip).Sound d := by
  have hplace := h.place
  unfold AtPlace at hplace
  rw [hw] at hplace
  obtain ⟨hlog, n, hrest, hle, hcount⟩ := hplace
  have hn : s.countOf d name = some n := (hcount (name, log) hlog).trans (if_pos rfl)
  have hnone : ∀ l, s.Pending d l → l.1 ≠ name → s.countOf d l.1 = none :=
    fun l hl hne => (hcount l hl).trans (if_neg hne)
  have hdelivered := h.deliveredOf_reading hlog hn hw
  cases rest with
  | nil =>
    refine h.finishLog hrun hlog.1 ?_ hnone
    have hend : log.records.length ≤ n := List.drop_eq_nil_iff.1 hrest.symm
    rw [hdelivered, List.take_of_length_le (by omega)]
  | cons e rest =>
    have hget : log.records[n]? = some e := by
      rw [← List.head?_drop, ← hrest, List.head?_cons]
    have hfind : SortedMap.find (d.path ++ name) s.openStreams = some n := hn
    cases skip with
    | succ skip =>
      have hsame : ∀ l ∈ d.logs, l.1 ≠ name →
          { s with delivered := s.delivered }.deliveredOf l.1 = s.deliveredOf l.1 :=
        fun _ _ _ => rfl
      have hcounts := h.counts hrun hlog hrest hle hcount hsame
        (hdelivered.trans (by congr 1; omega))
      simpa [LogInputReactor.readLog, hfind] using hcounts
    | zero =>
      have hother : ∀ l ∈ d.logs, l.1 ≠ name →
          (s.deliver name e).deliveredOf l.1 = s.deliveredOf l.1 := by
        intro l _ hne
        rw [deliveredOf_deliver, if_neg (Ne.symm hne), List.append_nil]
      have hnext : (s.deliver name e).deliveredOf name = log.records.take (n + 1) := by
        rw [deliveredOf_deliver, if_pos rfl, hdelivered, List.take_add_one, hget]
        rfl
      have hcounts := h.counts hrun hlog hrest hle hcount hother hnext
      by_cases heof : (rest.isEmpty && log.endsOpen) = true
      · -- the end of the file was found with the last record
        have hlast : rest = [] := List.isEmpty_iff.1 (Bool.and_eq_true_iff.1 heof).1
        have hlength : log.records.length = n + 1 := by
          have := congrArg List.length hrest
          simp [hlast] at this
          omega
        have hfinish := hcounts.finishLog hrun hlog.1
          (hnext.trans (List.take_of_length_le hlength.le)) (fun l hl hne => by
            rw [countOf, SortedMap.find_assign_of_ne (by simpa using hne)]
            exact hnone l hl hne)
        simpa [LogInputReactor.readLog, hfind, heof, LogInputReactor.finishLog,
          recordLogFileAsDone, deliver] using hfinish
      · rw [LogInputReactor.readLog]
        simp only [if_neg heof, hfind]
        exact hcounts

lemma Sound.step (h : s.Sound d) {e : LogEvent} (he : e = .stop → s.StopsWell d)
    (hstep : step d s e = some s') : s'.Sound d := by
  cases e with
  | start =>
    simp only [LogInputReactor.step] at hstep
    split_ifs at hstep with hstopping hrun
    · exact Option.some.inj hstep ▸ h
    · exact Option.some.inj hstep ▸ h.start (by simpa using hrun) (by simpa using hstopping)
  | work =>
    simp only [LogInputReactor.step, work] at hstep
    cases hrun : s.isRunning with
    | false =>
      have hoff : ¬ s.isRunning = true := by simp [hrun]
      split at hstep
      · simp at hstep
      · rw [if_neg hoff] at hstep
        exact Option.some.inj hstep ▸ h.leaves hrun
      · rw [if_neg hoff] at hstep
        exact Option.some.inj hstep ▸ h.leaves hrun
      · rw [if_neg hoff] at hstep
        exact Option.some.inj hstep ▸ h.leaves hrun
    | true =>
      split at hstep
      · simp at hstep
      · rename_i hw
        rw [if_pos hrun] at hstep
        exact Option.some.inj hstep ▸ h.checkForLogFiles hrun hw
      · rename_i name log hw
        rw [if_pos hrun] at hstep
        exact Option.some.inj hstep ▸ h.openLog hrun hw
      · rename_i name log rest skip hw
        rw [if_pos hrun] at hstep
        exact Option.some.inj hstep ▸ h.readLog hrun hw
  | stop =>
    simp only [LogInputReactor.step] at hstep
    split_ifs at hstep with hrun
    · exact Option.some.inj hstep ▸ h.stop hrun (he rfl)
    · exact Option.some.inj hstep ▸ h
  | finish =>
    simp only [LogInputReactor.step] at hstep
    split_ifs at hstep with hboth
    obtain ⟨hstopping, hinactive⟩ := Bool.and_eq_true_iff.1 hboth
    exact Option.some.inj hstep ▸ h.finish hstopping hinactive

end Sound

/-! ### The worker comes to the end of every log -/

section Progress

variable {d} {s s' s'' : LogInputReactor ε} {name : Bytes} {log : LogFile ε}

/-- The worker comes from one state to the other, with no call in between. -/
def WorksTo (d : LogDirectory ε) (s s' : LogInputReactor ε) : Prop :=
  ∃ k, run (step d) s (List.replicate k .work) = some s'

lemma WorksTo.refl (s : LogInputReactor ε) : WorksTo d s s := ⟨0, rfl⟩

lemma WorksTo.head (h : s.work d = some s') (h' : WorksTo d s' s'') : WorksTo d s s'' := by
  obtain ⟨k, hk⟩ := h'
  refine ⟨k + 1, ?_⟩
  rw [List.replicate_succ, run_cons, show step d s .work = some s' from h, Option.bind_some, hk]

lemma WorksTo.trans (h : WorksTo d s s') (h' : WorksTo d s' s'') : WorksTo d s s'' := by
  obtain ⟨k, hk⟩ := h
  obtain ⟨m, hm⟩ := h'
  exact ⟨k + m, by rw [List.replicate_add, run_append, hk, Option.bind_some, hm]⟩

/-- The worker is done with a log, and looks for the next one. -/
def DoneWith (s s' : LogInputReactor ε) (name : Bytes) : Prop :=
  s'.isRunning = true ∧ s'.worker = .checking ∧ name ∈ s'.logsConsumed ∧
    ∀ other ∈ s.logsConsumed, other ∈ s'.logsConsumed

lemma finishLog_doneWith (hrun : s.isRunning = true) : s.DoneWith (s.finishLog d name) name := by
  refine ⟨hrun, rfl, mem_record.2 (Or.inl rfl), fun other hother => mem_record.2 (Or.inr hother)⟩

lemma reading_worksTo (hrun : s.isRunning = true) {rest : List ε} {skip : ℕ}
    (hw : s.worker = .reading name log rest skip) :
    ∃ s', WorksTo d s s' ∧ s.DoneWith s' name := by
  induction rest generalizing s skip with
  | nil =>
    refine ⟨_, WorksTo.head ?_ (WorksTo.refl _), finishLog_doneWith (d := d) hrun⟩
    rw [work, hw]
    simp [hrun, readLog]
  | cons e rest ih =>
    have hwork : s.work d = some (s.readLog d name log (e :: rest) skip) := by
      rw [work, hw]
      simp [hrun]
    cases skip with
    | succ skip =>
      obtain ⟨s', hto, hdone⟩ := ih (s := s.readLog d name log (e :: rest) (skip + 1)) hrun rfl
      exact ⟨s', hto.head hwork, hdone⟩
    | zero =>
      by_cases heof : (rest.isEmpty && log.endsOpen) = true
      · refine ⟨_, WorksTo.head hwork (WorksTo.refl _), ?_⟩
        rw [readLog]
        simp only [if_pos heof]
        exact finishLog_doneWith (d := d) (s := { s with openStreams := _ }) hrun
      · have hnext : s.readLog d name log (e :: rest) 0 =
            { s with
              openStreams := SortedMap.assign (d.path ++ name)
                ((SortedMap.find (d.path ++ name) s.openStreams).getD 0 + 1) s.openStreams
              worker := .reading name log rest 0 }.deliver name e := by
          rw [readLog]
          simp only [if_neg heof]
        obtain ⟨s', hto, hdone⟩ := ih (s := s.readLog d name log (e :: rest) 0)
          (by rw [hnext]; exact hrun) (by rw [hnext]; rfl)
        refine ⟨s', hto.head hwork, hdone.1, hdone.2.1, hdone.2.2.1, fun other hother => ?_⟩
        refine hdone.2.2.2 other ?_
        rw [hnext]
        exact hother

lemma opening_worksTo (hrun : s.isRunning = true) (hw : s.worker = .opening name log) :
    ∃ s', WorksTo d s s' ∧ s.DoneWith s' name := by
  have hwork : s.work d = some (s.openLog d name log) := by
    rw [work, hw]
    simp [hrun]
  by_cases hempty : log.isEmpty = true
  · refine ⟨_, WorksTo.head hwork (WorksTo.refl _), ?_⟩
    rw [openLog, if_pos hempty]
    exact ⟨hrun, rfl, mem_record.2 (Or.inr (mem_record.2 (Or.inl rfl))),
      fun other hother => mem_record.2 (Or.inr (mem_record.2 (Or.inr hother)))⟩
  · have hopen : s.openLog d name log =
        { s with
          numEventsReadPreviously :=
            Function.update s.numEventsReadPreviously (d.path ++ name) none
          worker := .reading name log log.records
            ((s.numEventsReadPreviously (d.path ++ name)).getD 0) } := by
      rw [openLog, if_neg hempty]
    obtain ⟨s', hto, hdone⟩ := reading_worksTo (d := d) (s := s.openLog d name log)
      (by rw [hopen]; exact hrun) (by rw [hopen])
    refine ⟨s', hto.head hwork, hdone.1, hdone.2.1, hdone.2.2.1, fun other hother => ?_⟩
    refine hdone.2.2.2 other ?_
    rw [hopen]
    exact hother

/-- The logs that are not done yet. -/
def pendingLogs (d : LogDirectory ε) (s : LogInputReactor ε) : List (Bytes × LogFile ε) :=
  d.logs.filter fun l => ! s.logsConsumed.contains l.1

lemma mem_pendingLogs {l : Bytes × LogFile ε} : l ∈ pendingLogs d s ↔ s.Pending d l := by
  simp [pendingLogs, Pending]

/-- Fewer logs are left when one of them is done. -/
lemma length_pendingLogs_lt {l : Bytes × LogFile ε} (hl : s.Pending d l)
    (hdone : l.1 ∈ s'.logsConsumed)
    (hkeeps : ∀ l' ∈ d.logs, l'.1 ∈ s.logsConsumed → l'.1 ∈ s'.logsConsumed) :
    (pendingLogs d s').length < (pendingLogs d s).length := by
  have hfilter : pendingLogs d s' =
      (pendingLogs d s).filter fun l => ! s'.logsConsumed.contains l.1 := by
    rw [pendingLogs, pendingLogs, List.filter_filter]
    refine List.filter_congr fun l' hl' => ?_
    by_cases hmem : l'.1 ∈ s.logsConsumed
    · simp [hmem, hkeeps l' hl' hmem]
    · simp [hmem]
  rw [hfilter, List.length_filter_lt_length_iff_exists]
  exact ⟨l, mem_pendingLogs.2 hl, by simp [hdone]⟩

/-- If the worker is left alone, it comes to a state in which every log is done. -/
lemma checking_worksTo (hrun : s.isRunning = true) (hw : s.worker = .checking) :
    ∃ s', WorksTo d s s' ∧ s'.isRunning = true ∧ ∀ l ∈ d.logs, l.1 ∈ s'.logsConsumed := by
  induction hn : (pendingLogs d s).length using Nat.strong_induction_on generalizing s with
  | _ n ih =>
    have hwork : s.work d = some (s.checkForLogFiles d) := by
      rw [work, hw]
      simp [hrun]
    cases hfind : d.logs.find? (fun l => ! (s.forgets d).logsConsumed.contains l.1) with
    | none =>
      have hcheck : s.checkForLogFiles d = s.forgets d := by
        simp only [checkForLogFiles, hfind]
      refine ⟨s.forgets d, WorksTo.head (hcheck ▸ hwork) (WorksTo.refl _), hrun, fun l hl => ?_⟩
      have hnot := List.find?_eq_none.1 hfind l hl
      simpa using hnot
    | some l =>
      have hl := pending_forgets.1 (find_pending hfind)
      have hcheck : s.checkForLogFiles d =
          { s.forgets d with
            openStreams := SortedMap.assign (d.path ++ l.1) 0 (s.forgets d).openStreams
            worker := .opening l.1 l.2 } := by
        simp only [checkForLogFiles, hfind]
      have hopening : (s.checkForLogFiles d).worker = .opening l.1 l.2 := by rw [hcheck]
      obtain ⟨s', hto, hrun', hw', hdone, hkeeps⟩ :=
        opening_worksTo (d := d) (by rw [hcheck]; exact hrun) hopening
      have hlt : (pendingLogs d s').length < n := by
        rw [← hn]
        refine length_pendingLogs_lt hl hdone fun l' hl' hmem => hkeeps _ ?_
        rw [hcheck]
        exact (mem_forgets hl').2 hmem
      obtain ⟨s'', hto', hrest⟩ := ih _ hlt hrun' hw' rfl
      exact ⟨s'', (hto.head hwork).trans hto', hrest⟩

lemma Sound.worksTo (h : s.Sound d) (hrun : s.isRunning = true) :
    ∃ s', WorksTo d s s' ∧ s'.isRunning = true ∧ ∀ l ∈ d.logs, l.1 ∈ s'.logsConsumed := by
  have hplace := h.place
  unfold AtPlace at hplace
  cases hw : s.worker with
  | inactive =>
    rw [hw] at hplace
    exact absurd hrun (by simp [show s.isRunning = false from hplace])
  | checking => exact checking_worksTo hrun hw
  | opening name log =>
    obtain ⟨s', hto, hdone⟩ := opening_worksTo (d := d) hrun hw
    obtain ⟨s'', hto', hrest⟩ := checking_worksTo (d := d) hdone.1 hdone.2.1
    exact ⟨s'', hto.trans hto', hrest⟩
  | reading name log rest skip =>
    obtain ⟨s', hto, hdone⟩ := reading_worksTo (d := d) hrun hw
    obtain ⟨s'', hto', hrest⟩ := checking_worksTo (d := d) hdone.1 hdone.2.1
    exact ⟨s'', hto.trans hto', hrest⟩

end Progress

/-! ### Every event once -/

/-- The log is recorded as consumed, in memory and in the history cache. -/
def Consumed (s : LogInputReactor ε) (name : Bytes) : Prop :=
  name ∈ s.logsConsumed ∧ ∃ history, s.historyCache = some history ∧ name ∈ words history

lemma Sound.consumed_of_mem {d : LogDirectory ε} {s : LogInputReactor ε} (h : s.Sound d)
    {l : Bytes × LogFile ε} (hl : l ∈ d.logs) (hmem : l.1 ∈ s.logsConsumed) : s.Consumed l.1 := by
  rcases h.history with ⟨-, hempty⟩ | ⟨names, hsome, hspace, hnames⟩
  · simp [hempty] at hmem
  · refine ⟨hmem, _, hsome, ?_⟩
    rw [words_lines hspace, List.mem_filter]
    exact ⟨(hnames l.1 (d.name_ne l hl)).2 hmem, by simpa using d.name_ne l hl⟩

/-- What was delivered of a log are its first events, each once and in order, all of them when it
is consumed.  If the reactor is left running, then every log comes to be consumed. -/
def DeliversOnce (s : LogInputReactor ε) : Prop :=
  (∀ l ∈ d.logs, s.deliveredOf l.1 <+: l.2.records ∧
    (l.1 ∈ s.logsConsumed → s.deliveredOf l.1 = l.2.records)) ∧
  (s.isRunning = true → ∃ s', WorksTo d s s' ∧
    ∀ l ∈ d.logs, s'.Consumed l.1 ∧ s'.deliveredOf l.1 = l.2.records)

lemma sound_initial : Sound d ({} : LogInputReactor ε) := by
  refine ⟨Or.inl ⟨rfl, rfl⟩, by simp, by simp, fun l _ => ⟨Nat.zero_le _, rfl⟩, rfl, by simp,
    by simp, by simp, fun _ => ⟨Nat.zero_le _, rfl⟩, fun _ _ => ⟨rfl, rfl⟩⟩

lemma Sound.run {d : LogDirectory ε} {s s' : LogInputReactor ε} (h : s.Sound d)
    {es : List LogEvent}
    (hstop : ∀ e u, HappensIn (LogInputReactor.step d) s es e u → e = .stop → u.StopsWell d)
    (hrun : run (LogInputReactor.step d) s es = some s') : s'.Sound d :=
  reached_invariant (P := Sound d) (Q := fun e u => e = .stop → StopsWell d u) h
    (fun _ _ _ hu he hstep => hu.step he hstep) hstop hrun

/-- In every run in which each `stop` finds no event to skip, and at most one open stream, every
event of every log is delivered once and in order. -/
theorem delivers_once {es : List LogEvent} {s : LogInputReactor ε}
    (hrun : run (step d) {} es = some s)
    (hstop : ∀ e u, HappensIn (step d) {} es e u → e = .stop → u.StopsWell d) :
    s.DeliversOnce d := by
  have hsound := (sound_initial d).run hstop hrun
  refine ⟨fun l hl => ⟨?_, hsound.consumed l hl⟩, fun hon => ?_⟩
  · by_cases hmem : l.1 ∈ s.logsConsumed
    · rw [hsound.consumed l hl hmem]
    · rw [(hsound.pending l ⟨hl, hmem⟩).2]
      exact List.take_prefix _ _
  · obtain ⟨s', ⟨k, hk⟩, -, hall⟩ := hsound.worksTo hon
    have hsound' := hsound.run (fun e u hu he => by
      obtain ⟨before, after, heq, -⟩ := hu
      have hmem : e ∈ List.replicate k LogEvent.work := heq ▸ by simp
      exact absurd (he ▸ List.eq_of_mem_replicate hmem) (by simp)) hk
    exact ⟨s', ⟨k, hk⟩, fun l hl => ⟨hsound'.consumed_of_mem hl (hall l hl),
      hsound'.consumed l hl (hall l hl)⟩⟩

/-- A directory with one log of two records. -/
def oneLog : LogDirectory ℕ where
  path := [47]
  logs := [([97], { records := [1, 2], records_of_empty := by simp })]
  nodup := by simp
  name_ne := by simp
  name_space := by decide +kernel
  path_bar := by decide +kernel

/-- A stop between the two records. -/
theorem delivers_once_stopped : ∃ s : LogInputReactor ℕ,
    run (step oneLog) {} [.start, .work, .work, .work, .stop, .work, .finish, .start, .work, .work,
      .work, .work, .work] = some s ∧ s.DeliversOnce oneLog := by
  obtain ⟨s, hs⟩ := Option.isSome_iff_exists.1 (show (run (step oneLog) {} [.start, .work, .work,
    .work, .stop, .work, .finish, .start, .work, .work, .work, .work, .work]).isSome = true from rfl)
  refine ⟨s, hs, delivers_once oneLog hs fun e u hu he => ?_⟩
  have hall := (meets_iff (Q := fun e u => decide (e = LogEvent.stop → StopsWell oneLog u))).1 rfl
    e u hu
  exact of_decide_eq_true hall he

/-- A stop when the file was found again, and is not open yet: the number of the events that were
read is lost, and the first one is delivered again. -/
theorem delivered_twice_not_opened : ∃ s : LogInputReactor ℕ,
    run (step oneLog) {} [.start, .work, .work, .work, .stop, .work, .finish, .start, .work, .stop,
      .work, .finish, .start, .work, .work, .work, .work, .work] = some s ∧
      s.deliveredOf [97] = [1, 1, 2] ∧ ¬ s.DeliversOnce oneLog := by
  refine ⟨_, rfl, rfl, fun h => ?_⟩
  have hprefix := (h.1 ([97], _) (List.mem_singleton.2 rfl)).1
  exact absurd hprefix.length_le (by decide)

end LogInputReactor

end PionCore.Platform
