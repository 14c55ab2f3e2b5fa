/-
# The queue of the database inserter

`DatabaseInserter`: any number of producers call `insert`, which appends an event to a queue and
waits while the queue is full.  A worker thread swaps the queue for an empty one and inserts the
events in one transaction.  `stop` turns a flag off and waits for the worker.

A step is one section that is protected by `m_queue_mutex` (a wait on a condition ends a section,
and may end at any time), a test of the flag `m_is_running` outside of it, or one statement of the
worker.  The database does not fail, and events are not filtered by their keys.
-/
import PionCore.Lib.Runs
import PionCore.Lib.Transactions
import Mathlib.Logic.Function.Basic

namespace PionCore.Platform

open PionCore.Lib

/-- Where the worker thread is. -/
inductive InserterPlace where
  /-- there is no worker thread -/
  | none
  /-- in front of the notification that it has started -/
  | starting
  /-- in front of `while (m_is_running)` -/
  | testing
  /-- in front of the section of `checkEventQueue` -/
  | checking
  /-- in the timed wait of `checkEventQueue` -/
  | waiting
  /-- in front of `BEGIN` -/
  | beginning
  /-- in front of the turn `n` of the loop of `insertEvents` -/
  | inserting (n : ℕ)
  /-- the thread has left the loop -/
  | exited
deriving DecidableEq

/-- Where a caller of `insert` is. -/
inductive ProducerPlace (ε : Type*) where
  | idle
  /-- `m_is_running` was true, and the filter rules have let the event pass -/
  | entering (e : ε)
  /-- on `m_swapped_queue` -/
  | waiting (e : ε)
deriving DecidableEq

/-- `DatabaseInserter`, its worker, the callers of `insert`, and the table.  `appended` is no
member: it records the events that `insert` has appended to the queue. -/
structure DatabaseInserter (ε : Type*) where
  queueMax : ℕ
  isRunning : Bool := false
  eventQueue : List ε := []
  /-- the queue of the worker -/
  insertQueue : List ε := []
  worker : InserterPlace := .none
  /-- `stop` waits for the worker -/
  joining : Bool := false
  producers : ℕ → ProducerPlace ε := fun _ => .idle
  database : Table ε := {}
  appended : List ε := []

/-- The sections of the functions, and the producer that runs them. -/
inductive InserterEvent (ε : Type*) where
  | start
  /-- `insert` tests the flag and the filter rules -/
  | insert (p : ℕ) (e : ε)
  /-- the section of `insert` -/
  | append (p : ℕ)
  /-- the worker goes on -/
  | work
  | stop
  /-- the section of `stop` behind the join -/
  | join

namespace DatabaseInserter

variable {ε : Type*} (rules : ε → Bool)

/-- The section of `insert`, from the test of the flag or from the end of a wait. -/
def appendOrWait (s : DatabaseInserter ε) (p : ℕ) (e : ε) : DatabaseInserter ε :=
  if s.isRunning then
    if s.eventQueue.length < s.queueMax then
      { s with
        eventQueue := s.eventQueue ++ [e], appended := s.appended ++ [e]
        producers := Function.update s.producers p .idle }
    else { s with producers := Function.update s.producers p (.waiting e) }
  else { s with producers := Function.update s.producers p .idle }

/-- The queues are swapped. -/
def swap (s : DatabaseInserter ε) : DatabaseInserter ε :=
  { s with eventQueue := s.insertQueue, insertQueue := s.eventQueue, worker := .beginning }

/-- The worker goes on: `insertEvents` and `checkEventQueue`. -/
def work (s : DatabaseInserter ε) : Option (DatabaseInserter ε) :=
  match s.worker with
  | .starting => some { s with worker := .testing }
  | .testing => some { s with worker := if s.isRunning then .checking else .exited }
  | .checking =>
      if s.eventQueue.length < s.queueMax then some { s with worker := .waiting } else some s.swap
  | .waiting => if s.eventQueue.isEmpty then some { s with worker := .testing } else some s.swap
  | .beginning =>
      s.database.begins.map fun database => { s with database := database, worker := .inserting 0 }
  | .inserting n =>
      match s.insertQueue[n]? with
      | some e =>
          some { s with database := s.database.inserts e, worker := .inserting (n + 1) }
      | .none => s.database.commits.map fun database =>
          { s with database := database, insertQueue := [], worker := .testing }
  | .exited | .none => .none

def step (s : DatabaseInserter ε) : InserterEvent ε → Option (DatabaseInserter ε)
  | .start =>
      if s.joining then .none
      else if s.isRunning then some s
      else some { s with isRunning := true, worker := .starting, insertQueue := [] }
  | .insert p e =>
      match s.producers p with
      | .idle =>
          if s.isRunning && rules e then
            some { s with producers := Function.update s.producers p (.entering e) }
          else some s
      | .entering _ | .waiting _ => .none
  | .append p =>
      match s.producers p with
      | .idle => .none
      | .entering e | .waiting e => some (s.appendOrWait p e)
  | .work => s.work
  | .stop => if s.isRunning then some { s with isRunning := false, joining := true } else some s
  | .join =>
      if s.joining ∧ s.worker = .exited then
        some { s with
          joining := false, worker := .none, database := s.database.closes, eventQueue := [] }
      else .none

/-- The events of the worker's queue that are not in the table or in its transaction yet. -/
def toInsert (s : DatabaseInserter ε) : List ε :=
  match s.worker with
  | .beginning => s.insertQueue
  | .inserting n => s.insertQueue.drop n
  | .none | .starting | .testing | .checking | .waiting | .exited => []

/-- The worker is in `checkEventQueue`, or about to call it. -/
def InCheck (s : DatabaseInserter ε) : Prop := s.worker = .checking ∨ s.worker = .waiting

instance (s : DatabaseInserter ε) : Decidable s.InCheck := inferInstanceAs (Decidable (_ ∨ _))

/-- What holds of every state: where the transaction and the worker's queue are in use, where the
worker is while the flag is on, and that no pending event is left behind when the flag is off. -/
structure Orderly (s : DatabaseInserter ε) : Prop where
  bounded : s.eventQueue.length ≤ s.queueMax
  accounted : s.database.rows ++ s.toInsert ++ s.eventQueue = s.appended
  opened : s.database.opened.isSome ↔ ∃ n, s.worker = .inserting n
  emptied : (∀ n, s.worker ≠ .inserting n) → s.worker ≠ .beginning → s.insertQueue = []
  inRange : ∀ n, s.worker = .inserting n → n ≤ s.insertQueue.length
  running : s.isRunning = true → s.worker ≠ .none ∧ s.worker ≠ .exited ∧ s.joining = false
  stopping : s.isRunning = false → s.eventQueue = [] ∨ s.InCheck
  joined : s.worker = .none ↔ s.isRunning = false ∧ s.joining = false

section Orderly

variable {rules} {s s' : DatabaseInserter ε}

lemma toInsert_of_ne (hbegin : s.worker ≠ .beginning) (hin : ∀ n, s.worker ≠ .inserting n) :
    s.toInsert = [] := by
  cases hw : s.worker with
  | beginning => exact absurd hw hbegin
  | inserting n => exact absurd hw (hin n)
  | none | starting | testing | checking | waiting | exited => simp [toInsert, hw]

lemma Orderly.opened_eq_none (h : s.Orderly) (hin : ∀ n, s.worker ≠ .inserting n) :
    s.database.opened = none := by
  have hnot : ¬ s.database.opened.isSome := by
    rw [h.opened]
    rintro ⟨n, hn⟩
    exact hin n hn
  simpa using hnot

/-- While no producer and no worker is at work on them, the queue and the flag stay. -/
lemma Orderly.producers (h : s.Orderly) (producers : ℕ → ProducerPlace ε) :
    { s with producers := producers }.Orderly :=
  ⟨h.bounded, h.accounted, h.opened, h.emptied, h.inRange, h.running, h.stopping, h.joined⟩

lemma Orderly.appendOrWait (h : s.Orderly) (p : ℕ) (e : ε) : (s.appendOrWait p e).Orderly := by
  unfold DatabaseInserter.appendOrWait
  split_ifs with hrun hroom
  · refine ⟨?_, ?_, h.opened, h.emptied, h.inRange, h.running, ?_, h.joined⟩
    · show (s.eventQueue ++ [e]).length ≤ s.queueMax
      rw [List.length_append, List.length_singleton]
      exact hroom
    · show s.database.rows ++ s.toInsert ++ (s.eventQueue ++ [e]) = s.appended ++ [e]
      rw [← List.append_assoc, h.accounted]
    · intro hoff
      exact absurd hrun (by simp [show s.isRunning = false from hoff])
  · exact h.producers _
  · exact h.producers _

/-- The worker moves on to a place where it has no events in hand. -/
lemma Orderly.moves (h : s.Orderly) (hbegin : s.worker ≠ .beginning)
    (hin : ∀ n, s.worker ≠ .inserting n) {place : InserterPlace} (hnew : place ≠ .beginning)
    (hnewIn : ∀ n, place ≠ .inserting n)
    (hrunning : s.isRunning = true → place ≠ .none ∧ place ≠ .exited ∧ s.joining = false)
    (hstopping : s.isRunning = false → s.eventQueue = [] ∨ { s with worker := place }.InCheck)
    (hjoined : place = .none ↔ s.isRunning = false ∧ s.joining = false) :
    { s with worker := place }.Orderly := by
  refine ⟨h.bounded, ?_, ?_, ?_, ?_, hrunning, hstopping, hjoined⟩
  · have hacc := h.accounted
    rw [toInsert_of_ne hbegin hin] at hacc
    rw [toInsert_of_ne (s := { s with worker := place }) hnew hnewIn]
    exact hacc
  · show s.database.opened.isSome ↔ ∃ n, place = .inserting n
    rw [h.opened_eq_none hin]
    simpa using hnewIn
  · exact fun _ _ => h.emptied hin hbegin
  · exact fun n hn => absurd hn (hnewIn n)

lemma Orderly.swap (h : s.Orderly) (hcheck : s.InCheck) : s.swap.Orderly := by
  have hbegin : s.worker ≠ .beginning := by
    rcases hcheck with hw | hw <;> simp [hw]
  have hin : ∀ n, s.worker ≠ .inserting n := by
    intro n
    rcases hcheck with hw | hw <;> simp [hw]
  have hempty := h.emptied hin hbegin
  refine ⟨?_, ?_, ?_, ?_, ?_, ?_, ?_, ?_⟩
  · show s.insertQueue.length ≤ s.queueMax
    rw [hempty]
    exact Nat.zero_le _
  · have hacc := h.accounted
    rw [toInsert_of_ne hbegin hin, List.append_nil] at hacc
    show s.database.rows ++ s.eventQueue ++ s.insertQueue = s.appended
    rw [hempty, List.append_nil, hacc]
  · show s.database.opened.isSome ↔ ∃ n, InserterPlace.beginning = .inserting n
    simp [h.opened_eq_none hin]
  · exact fun _ hne => absurd rfl hne
  · exact fun n hn => absurd hn (by simp [DatabaseInserter.swap])
  · intro hrun
    exact ⟨by simp [DatabaseInserter.swap], by simp [DatabaseInserter.swap],
      (h.running hrun).2.2⟩
  · exact fun _ => Or.inl hempty
  · show InserterPlace.beginning = .none ↔ s.isRunning = false ∧ s.joining = false
    rw [← h.joined]
    rcases hcheck with hw | hw <;> simp [hw]

lemma Orderly.queue_of_stopped (h : s.Orderly) (hoff : s.isRunning = false)
    (hcheck : ¬ s.InCheck) : s.eventQueue = [] :=
  (h.stopping hoff).resolve_right hcheck

/-- The transaction begins. -/
lemma Orderly.begins (h : s.Orderly) (hw : s.worker = .beginning) {database : Table ε}
    (hdb : s.database.begins = some database) :
    { s with database := database, worker := .inserting 0 }.Orderly := by
  have hrows := Table.rows_begins hdb
  obtain ⟨-, rfl⟩ := Table.begins_eq_some.1 hdb
  have hoff (hoff : s.isRunning = false) : s.eventQueue = [] :=
    h.queue_of_stopped hoff (by simp [InCheck, hw])
  refine ⟨h.bounded, ?_, by simp, ?_, ?_, ?_, fun hf => Or.inl (hoff hf), ?_⟩
  · have hacc := h.accounted
    simp only [toInsert, hw] at hacc
    show Table.rows _ ++ s.insertQueue.drop 0 ++ s.eventQueue = s.appended
    rw [hrows, List.drop_zero, hacc]
  · exact fun hne => absurd rfl (hne 0)
  · rintro n ⟨⟩
    exact Nat.zero_le _
  · exact fun hrun => ⟨by simp, by simp, (h.running hrun).2.2⟩
  · show InserterPlace.inserting 0 = .none ↔ s.isRunning = false ∧ s.joining = false
    rw [← h.joined, hw]
    simp

/-- One turn of the loop. -/
lemma Orderly.inserts (h : s.Orderly) {n : ℕ} (hw : s.worker = .inserting n) {e : ε}
    (he : s.insertQueue[n]? = some e) :
    { s with database := s.database.inserts e, worker := .inserting (n + 1) }.Orderly := by
  obtain ⟨hlt, rfl⟩ := List.getElem?_eq_some_iff.1 he
  obtain ⟨rows, hrows⟩ := Option.isSome_iff_exists.1 (h.opened.2 ⟨n, hw⟩)
  have hoff (hoff : s.isRunning = false) : s.eventQueue = [] :=
    h.queue_of_stopped hoff (by simp [InCheck, hw])
  refine ⟨h.bounded, ?_, ?_, ?_, ?_, ?_, fun hf => Or.inl (hoff hf), ?_⟩
  · have hacc := h.accounted
    simp only [toInsert, hw] at hacc
    show (s.database.inserts s.insertQueue[n]).rows ++ s.insertQueue.drop (n + 1) ++
      s.eventQueue = s.appended
    rw [Table.rows_inserts, List.append_assoc _ [_], List.singleton_append,
      List.getElem_cons_drop, hacc]
  · simp [Table.inserts_of_some hrows]
  · exact fun hne => absurd rfl (hne (n + 1))
  · rintro m ⟨⟩
    exact hlt
  · exact fun hrun => ⟨by simp, by simp, (h.running hrun).2.2⟩
  · show InserterPlace.inserting (n + 1) = .none ↔ s.isRunning = false ∧ s.joining = false
    rw [← h.joined, hw]
    simp

/-- The transaction is committed behind the last turn. -/
lemma Orderly.commits (h : s.Orderly) {n : ℕ} (hw : s.worker = .inserting n)
    (hend : s.insertQueue[n]? = none) {database : Table ε}
    (hdb : s.database.commits = some database) :
    { s with database := database, insertQueue := [], worker := .testing }.Orderly := by
  obtain ⟨hstored, hopened⟩ := Table.rows_commits hdb
  have hoff (hoff : s.isRunning = false) : s.eventQueue = [] :=
    h.queue_of_stopped hoff (by simp [InCheck, hw])
  refine ⟨h.bounded, ?_, ?_, fun _ _ => rfl, ?_, ?_, fun hf => Or.inl (hoff hf), ?_⟩
  · have hacc := h.accounted
    simp only [toInsert, hw, List.drop_eq_nil_of_le (List.getElem?_eq_none_iff.1 hend),
      List.append_nil] at hacc
    show database.rows ++ [] ++ s.eventQueue = s.appended
    rw [Table.rows_of_none hopened, hstored, List.append_nil, hacc]
  · simp [hopened]
  · exact fun m hm => absurd hm (by simp)
  · exact fun hrun => ⟨by simp, by simp, (h.running hrun).2.2⟩
  · show InserterPlace.testing = .none ↔ s.isRunning = false ∧ s.joining = false
    rw [← h.joined, hw]
    simp

lemma Orderly.work (h : s.Orderly) (hwork : s.work = some s') : s'.Orderly := by
  unfold DatabaseInserter.work at hwork
  split at hwork
  case h_1 hw =>
    obtain rfl := Option.some.inj hwork
    refine h.moves (by simp [hw]) (by simp [hw]) (by simp) (by simp)
      (fun hrun => ⟨by simp, by simp, (h.running hrun).2.2⟩) (fun hoff => ?_) ?_
    · exact Or.inl (h.queue_of_stopped hoff (by simp [InCheck, hw]))
    · rw [← h.joined, hw]
      simp
  case h_2 hw =>
    obtain rfl := Option.some.inj hwork
    refine h.moves (by simp [hw]) (by simp [hw]) ?_ ?_ ?_ (fun hoff => ?_) ?_
    · split_ifs <;> simp
    · split_ifs <;> simp
    · intro hrun
      rw [if_pos hrun]
      exact ⟨by simp, by simp, (h.running hrun).2.2⟩
    · exact Or.inl (h.queue_of_stopped hoff (by simp [InCheck, hw]))
    · rw [← h.joined, hw]
      split_ifs <;> simp
  case h_3 hw =>
    split_ifs at hwork
    · obtain rfl := Option.some.inj hwork
      refine h.moves (by simp [hw]) (by simp [hw]) (by simp) (by simp)
        (fun hrun => ⟨by simp, by simp, (h.running hrun).2.2⟩)
        (fun _ => Or.inr (Or.inr rfl)) ?_
      rw [← h.joined, hw]
      simp
    · obtain rfl := Option.some.inj hwork
      exact h.swap (Or.inl hw)
  case h_4 hw =>
    split_ifs at hwork with hempty
    · obtain rfl := Option.some.inj hwork
      refine h.moves (by simp [hw]) (by simp [hw]) (by simp) (by simp)
        (fun hrun => ⟨by simp, by simp, (h.running hrun).2.2⟩)
        (fun _ => Or.inl (List.isEmpty_iff.1 hempty)) ?_
      rw [← h.joined, hw]
      simp
    · obtain rfl := Option.some.inj hwork
      exact h.swap (Or.inr hw)
  case h_5 hw =>
    obtain ⟨database, hdb, rfl⟩ := Option.map_eq_some_iff.1 hwork
    exact h.begins hw hdb
  case h_6 n hw =>
    split at hwork
    case h_1 e he =>
      obtain rfl := Option.some.inj hwork
      exact h.inserts hw he
    case h_2 hend =>
      obtain ⟨database, hdb, rfl⟩ := Option.map_eq_some_iff.1 hwork
      exact h.commits hw hend hdb
  case h_7 => simp at hwork
  case h_8 => simp at hwork

/-- `stop` turns the flag off; what is pending then is found by the worker only if it is in
`checkEventQueue`, or about to call it. -/
lemma Orderly.stop (h : s.Orderly) (hrun : s.isRunning = true)
    (hpending : s.eventQueue = [] ∨ s.InCheck) :
    { s with isRunning := false, joining := true }.Orderly := by
  refine ⟨h.bounded, h.accounted, h.opened, h.emptied, h.inRange, by simp, fun _ => hpending, ?_⟩
  simp only [reduceCtorEq, and_false, iff_false]
  exact (h.running hrun).1

lemma Orderly.join (h : s.Orderly) (hw : s.worker = .exited) :
    { s with joining := false, worker := .none, database := s.database.closes,
             eventQueue := [] }.Orderly := by
  have hoff : s.isRunning = false := by
    by_contra hon
    exact (h.running (by simpa using hon)).2.1 hw
  have hin : ∀ n, s.worker ≠ .inserting n := by simp [hw]
  have hqueue : s.eventQueue = [] := h.queue_of_stopped hoff (by simp [InCheck, hw])
  refine ⟨Nat.zero_le _, ?_, by simp, fun _ _ => h.emptied hin (by simp [hw]), by simp,
    fun hon => ?_, fun _ => Or.inl rfl, by simp [hoff]⟩
  · have hacc := h.accounted
    rw [toInsert_of_ne (by simp [hw]) hin, hqueue, List.append_nil, List.append_nil,
      Table.rows_of_none (h.opened_eq_none hin)] at hacc
    show s.database.closes.rows ++ [] ++ [] = s.appended
    rw [Table.rows_closes, List.append_nil, List.append_nil, hacc]
  · rw [hoff] at hon
    exact absurd hon (by simp)

lemma Orderly.start (h : s.Orderly) (hjoining : s.joining = false) (hoff : s.isRunning = false) :
    { s with isRunning := true, worker := .starting, insertQueue := [] }.Orderly := by
  have hw : s.worker = .none := h.joined.2 ⟨hoff, hjoining⟩
  refine ⟨h.bounded, ?_, ?_, fun _ _ => rfl, by simp, fun _ => ⟨by simp, by simp, hjoining⟩,
    by simp, by simp⟩
  · have hacc := h.accounted
    rw [toInsert_of_ne (by simp [hw]) (by simp [hw])] at hacc
    exact hacc
  · rw [h.opened_eq_none (by simp [hw])]
    simp

/-- What `stop` finds: no pending event, or the worker in `checkEventQueue`. -/
def StopsWell (e : InserterEvent ε) (s : DatabaseInserter ε) : Prop :=
  match e with
  | .stop => s.isRunning = true → s.eventQueue = [] ∨ s.InCheck
  | .start | .insert _ _ | .append _ | .work | .join => True

instance (e : InserterEvent ε) (s : DatabaseInserter ε) : Decidable (StopsWell e s) :=
  match e with
  | .stop => decidable_of_iff (s.isRunning = false ∨ s.eventQueue.isEmpty ∨ s.InCheck) <| by
      simp only [StopsWell, List.isEmpty_iff]
      cases s.isRunning <;> simp
  | .start | .insert _ _ | .append _ | .work | .join => inferInstanceAs (Decidable True)

lemma Orderly.step (h : s.Orderly) {e : InserterEvent ε} (he : StopsWell e s)
    (hstep : step rules s e = some s') : s'.Orderly := by
  cases e with
  | start =>
    simp only [DatabaseInserter.step] at hstep
    split_ifs at hstep with hjoining hrun
    · exact Option.some.inj hstep ▸ h
    · exact Option.some.inj hstep ▸ h.start (by simpa using hjoining) (by simpa using hrun)
  | insert p e =>
    simp only [DatabaseInserter.step] at hstep
    split at hstep
    · split_ifs at hstep
      · exact Option.some.inj hstep ▸ h.producers _
      · exact Option.some.inj hstep ▸ h
    · simp at hstep
    · simp at hstep
  | append p =>
    simp only [DatabaseInserter.step] at hstep
    split at hstep
    · simp at hstep
    · exact Option.some.inj hstep ▸ h.appendOrWait p _
    · exact Option.some.inj hstep ▸ h.appendOrWait p _
  | work => exact h.work hstep
  | stop =>
    simp only [DatabaseInserter.step] at hstep
    split_ifs at hstep with hrun
    · exact Option.some.inj hstep ▸ h.stop hrun (he hrun)
    · exact Option.some.inj hstep ▸ h
  | join =>
    simp only [DatabaseInserter.step] at hstep
    split_ifs at hstep with hboth
    exact Option.some.inj hstep ▸ h.join hboth.2

/-- No step changes the configured maximum. -/
lemma step_queueMax {e : InserterEvent ε} (hstep : step rules s e = some s') :
    s'.queueMax = s.queueMax := by
  cases e with
  | start | stop | join =>
    simp only [step] at hstep
    split_ifs at hstep <;> exact Option.some.inj hstep ▸ rfl
  | insert p e =>
    simp only [step] at hstep
    split at hstep
    · split_ifs at hstep <;> exact Option.some.inj hstep ▸ rfl
    · simp at hstep
    · simp at hstep
  | append p =>
    have hkeeps (e : ε) : (s.appendOrWait p e).queueMax = s.queueMax := by
      unfold appendOrWait
      split_ifs <;> rfl
    simp only [step] at hstep
    split at hstep
    · simp at hstep
    · exact Option.some.inj hstep ▸ hkeeps _
    · exact Option.some.inj hstep ▸ hkeeps _
  | work =>
    simp only [step, work] at hstep
    split at hstep
    · exact Option.some.inj hstep ▸ rfl
    · exact Option.some.inj hstep ▸ rfl
    · split_ifs at hstep <;> exact Option.some.inj hstep ▸ rfl
    · split_ifs at hstep <;> exact Option.some.inj hstep ▸ rfl
    · obtain ⟨database, -, rfl⟩ := Option.map_eq_some_iff.1 hstep
      rfl
    · split at hstep
      · exact Option.some.inj hstep ▸ rfl
      · obtain ⟨database, -, rfl⟩ := Option.map_eq_some_iff.1 hstep
        rfl
    · simp at hstep
    · simp at hstep

lemma orderly_initial (queueMax : ℕ) : Orderly { queueMax := queueMax : DatabaseInserter ε } :=
  ⟨Nat.zero_le _, rfl, by simp, fun _ _ => rfl, by simp, by simp, fun _ => Or.inl rfl, by simp⟩

end Orderly

/-- The events that were appended are stored in order, but for those that the worker has not come
to yet, and the queue is bounded.  When the worker has been joined, all of them are stored. -/
def StoresAppended (s : DatabaseInserter ε) (queueMax : ℕ) : Prop :=
  s.eventQueue.length ≤ queueMax ∧
    s.database.rows ++ s.toInsert ++ s.eventQueue = s.appended ∧
    (s.worker = .none → s.database.stored = s.appended)

/-- Every appended event is inserted once and in order, in every run in which `stop` is called
when no event is pending, or when the worker is in `checkEventQueue`. -/
theorem appended_stored {queueMax : ℕ} {es : List (InserterEvent ε)} {s : DatabaseInserter ε}
    (hrun : run (step rules) { queueMax := queueMax } es = some s)
    (hstop : ∀ e u, HappensIn (step rules) { queueMax := queueMax } es e u → StopsWell e u) :
    s.StoresAppended queueMax := by
  obtain ⟨horderly, hmax⟩ := reached_invariant
    (P := fun u => u.Orderly ∧ u.queueMax = queueMax) (Q := StopsWell)
    ⟨orderly_initial queueMax, rfl⟩
    (fun u e u' hu he hstep => ⟨hu.1.step he hstep, (step_queueMax hstep).trans hu.2⟩) hstop hrun
  refine ⟨hmax ▸ horderly.bounded, horderly.accounted, fun hw => ?_⟩
  have hin : ∀ n, s.worker ≠ .inserting n := by simp [hw]
  have hqueue : s.eventQueue = [] :=
    horderly.queue_of_stopped (horderly.joined.1 hw).1 (by simp [InCheck, hw])
  have hacc := horderly.accounted
  rw [toInsert_of_ne (by simp [hw]) hin, hqueue, List.append_nil, List.append_nil,
    Table.rows_of_none (horderly.opened_eq_none hin)] at hacc
  exact hacc

/-- A run in which `stop` is called while the worker waits. -/
theorem appended_stored_waiting : ∃ s : DatabaseInserter ℕ,
    run (step fun _ => true) { queueMax := 2 }
      [.start, .work, .insert 0 7, .append 0, .work, .work, .stop, .work, .work, .work, .work,
        .work, .join] = some s ∧ s.StoresAppended 2 := by
  obtain ⟨s, hs⟩ := Option.isSome_iff_exists.1 (show (run (step fun _ => true)
    ({ queueMax := 2 } : DatabaseInserter ℕ) [.start, .work, .insert 0 7, .append 0, .work, .work,
      .stop, .work, .work, .work, .work, .work, .join]).isSome = true from rfl)
  refine ⟨s, hs, appended_stored _ hs fun e u hu => ?_⟩
  have hall := (meets_iff (Q := fun e u => decide (StopsWell e u))).1 rfl e u hu
  exact of_decide_eq_true hall

/-- `stop` is called when the worker has not come to `while (m_is_running)` yet: the event that is
pending is cleared with the queue, and never stored. -/
theorem pending_event_lost : ∃ s : DatabaseInserter ℕ,
    run (step fun _ => true) { queueMax := 1 }
      [.start, .work, .insert 0 7, .append 0, .stop, .work, .join] = some s ∧
      s.appended = [7] ∧ s.database.stored = [] ∧ s.worker = .none ∧ ¬ s.StoresAppended 1 := by
  refine ⟨_, rfl, rfl, rfl, rfl, fun h => ?_⟩
  exact absurd (h.2.2 rfl) (by decide)

end DatabaseInserter

end PionCore.Platform
