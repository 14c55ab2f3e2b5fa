/-
# Monitors

A `MonitorWriter` is called by a reactor that delivers an event, under the `ConfigReadLock` of the
thread that delivers.  When its buffer gets full, or nobody has asked for two minutes, it stops, and
has the engine remove its connection from this reactor: the `ConfigWriteLock` for that waits until
there are no readers, and throws at last, since its own thread is one of them (`detaches_iff`).

With multithreaded branches only the first running connection is called by the thread that delivers,
and a monitor behind it is called by the scheduler, without that lock.  The engine lets only one
thread change the configuration of a reactor, so that no change is pending when a monitor stops.
-/
import PionCore.Platform.EventDelivery
import PionCore.Platform.ReactorLock

namespace PionCore.Platform

open PionCore.Lib

/-- `MonitorWriter`; an age is a time in seconds, or `not_a_date_time`. -/
structure MonitorWriter (ε : Type*) where
  connectionId : Bytes
  size : ℕ
  scroll : Bool
  eventBuffer : List ε := []
  stopped : Bool := false
  eventsSeen : List ℕ := []
  filteredEvents : List ℕ := []
  eventCounter : UInt32 := 0
  age : Option ℤ := none

/-- A reactor with a monitor: its connections in the order of the map, and what the engine knows:
the identifiers of the temporary output connections of this reactor. -/
structure MonitoredReactor (ε : Type*) where
  configIsOpen : Bool := true
  multithreadBranches : Bool := false
  output : OutputConnections
  tempConnections : List Bytes
  writer : MonitorWriter ε

/-- An event, or a null pointer, that is delivered at some time.  The other readers of the
configuration are counted whenever a lock looks at their number, for the first and for a second
attempt to stop. -/
structure MonitorDelivery (ε : Type*) where
  event : Option ε
  now : ℤ
  otherReaders : ℕ → ℕ
  otherReadersAgain : ℕ → ℕ

/-- The query parameters that matter here. -/
structure MonitorQuery where
  events : Option ℕ := none
  scroll : Option Bool := none
  filter : List ℕ := []
  unfilter : List ℕ := []

inductive MonitorStep (ε : Type*) where
  | deliver (d : MonitorDelivery ε)
  /-- a call that was posted to the scheduler -/
  | posted (d : MonitorDelivery ε)
  /-- a request of a browser: `setQP`, or `setAge` without parameters -/
  | setQP (now : ℤ) (qp : MonitorQuery)
  /-- `stop` by the service, with the numbers of the readers -/
  | stop (readers : ℕ → ℕ)
  /-- other connections are made or removed -/
  | connect (output : OutputConnections)

namespace MonitorWriter

variable {ε : Type*} (getType : ε → ℕ)

/-- `m_age + seconds(120) < local_time()`, which is false for `not_a_date_time`. -/
def isIdle (w : MonitorWriter ε) (now : ℤ) : Bool :=
  match w.age with
  | none => false
  | some age => age + 120 < now

/-- `circular_buffer::push_back` -/
def pushBack (size : ℕ) (buffer : List ε) (e : ε) : List ε :=
  if buffer.length < size then buffer ++ [e] else if buffer = [] then [] else buffer.tail ++ [e]

def isFull (w : MonitorWriter ε) : Bool := w.eventBuffer.length = w.size

/-- Is an event of this type added to the buffer? -/
def collects (w : MonitorWriter ε) (e : ε) : Bool :=
  ! w.filteredEvents.contains (getType e) && ! w.stopped

/-- The event is seen. -/
def see (w : MonitorWriter ε) (e : ε) : MonitorWriter ε :=
  { w with eventsSeen := w.eventsSeen.insert (getType e) }

/-- The event is added to the buffer. -/
def push (w : MonitorWriter ε) (e : ε) : MonitorWriter ε :=
  { w with
    eventBuffer := pushBack w.size w.eventBuffer e
    eventCounter := w.eventCounter + 1 }

def setQP (w : MonitorWriter ε) (now : ℤ) (qp : MonitorQuery) : MonitorWriter ε :=
  let size := qp.events.getD w.size
  -- `rset_capacity` drops the first events
  let buffer := w.eventBuffer.drop (w.eventBuffer.length - size)
  { w with
    age := some now
    size := size
    scroll := qp.scroll.getD w.scroll
    eventBuffer := buffer.filter fun e => ! qp.filter.contains (getType e)
    filteredEvents := (w.filteredEvents ++ qp.filter).filter fun t => ! qp.unfilter.contains t }

end MonitorWriter

namespace MonitoredReactor

variable {ε : Type*} (getType : ε → ℕ)

/-! ### Detaching -/

/-- The loop of `ConfigWriteLock`, in at most `n` turns: are there no readers any more?  It throws
otherwise. -/
def waitForReaders (readers : ℕ → ℕ) (sleepTimes : ℕ) : ℕ → Bool
  | 0 => false
  | n + 1 =>
      if 0 < readers sleepTimes then
        if ConfigLock.maxSleepTimes < sleepTimes + 1 then false
        else waitForReaders readers (sleepTimes + 1) n
      else true

/-! The operations that follow give the state they leave, and whether they return. -/

/-- `Reactor::removeConnection` -/
def removeConnection (s : MonitoredReactor ε) (readers : ℕ → ℕ) (connectionId : Bytes) :
    MonitoredReactor ε × Bool :=
  if ! waitForReaders readers 0 (ConfigLock.maxSleepTimes + 1) then (s, false)
  else if ! s.output.connections.any fun c => c.1 = connectionId then (s, false)
  else
    ({ s with output.connections := s.output.connections.filter fun c => c.1 ≠ connectionId
              output.nodup := s.output.nodup.sublist (List.filter_sublist.map Prod.fst) }, true)

/-- `ReactionEngine::removeTempConnection` -/
def removeTempConnection (s : MonitoredReactor ε) (readers : ℕ → ℕ) (connectionId : Bytes) :
    MonitoredReactor ε × Bool :=
  if ! s.configIsOpen then (s, false)
  else if s.tempConnections.contains connectionId then
    -- the temporary connection is erased before the output connection is removed
    { s with tempConnections := s.tempConnections.erase connectionId }.removeConnection readers
      connectionId
  else (s, true)

/-- `MonitorWriter::stop` -/
def stop (s : MonitoredReactor ε) (readers : ℕ → ℕ) (stop flush : Bool) :
    MonitoredReactor ε × Bool :=
  let removed :=
    if ! s.writer.stopped && stop then s.removeTempConnection readers s.writer.connectionId
    else (s, true)
  if removed.2 then
    let stopped : MonitoredReactor ε := { removed.1 with writer.stopped := true }
    (if flush then { stopped with writer.eventBuffer := [], writer.age := none } else stopped, true)
  else (removed.1, false)

/-- The event is seen, and added to the buffer. -/
def pushed (s : MonitoredReactor ε) (e : ε) : MonitoredReactor ε :=
  { s with writer := (s.writer.see getType e).push e }

/-- `MonitorWriter::writeEvent` -/
def writeEvent (s : MonitoredReactor ε) (e : Option ε) (now : ℤ) (readers readersAgain : ℕ → ℕ) :
    MonitoredReactor ε × Bool :=
  match e with
  | none => s.stop readers false false
  | some e =>
    if s.writer.isIdle now then s.stop readers true true
    else
      if s.writer.collects getType e then
        if ! (s.pushed getType e).writer.scroll && (s.pushed getType e).writer.isFull then
          let stopped := (s.pushed getType e).stop readers true false
          -- an exception is caught, and the writer stops once more
          if stopped.2 then stopped else stopped.1.stop readersAgain true false
        else (s.pushed getType e, true)
      else ({ s with writer := s.writer.see getType e }, true)

/-! ### Delivering -/

/-- What a delivery leaves: the other connections that got the event, and whether it returns. -/
structure Outcome (ε : Type*) where
  after : MonitoredReactor ε
  passedOn : List Bytes
  returns : Bool

/-- The call of the monitor in a delivery, whose thread is one of the readers. -/
def written (s : MonitoredReactor ε) (d : MonitorDelivery ε) : MonitoredReactor ε × Bool :=
  s.writeEvent getType d.event d.now (fun k => d.otherReaders k + 1)
    fun k => d.otherReadersAgain k + 1

/-- The loop of `deliverEvent`. -/
def deliverTo (d : MonitorDelivery ε) :
    List (Bytes × ConnectionEnd) → MonitoredReactor ε → Outcome ε
  | [], s => ⟨s, [], true⟩
  | c :: cs, s =>
      if c.1 = s.writer.connectionId then
        let written := s.written getType d
        if written.2 then deliverTo d cs written.1 else ⟨written.1, [], false⟩
      else
        let rest := deliverTo d cs s
        { rest with passedOn := if c.2.isRunning then c.1 :: rest.passedOn else rest.passedOn }

/-- The other connections that are running. -/
def others (s : MonitoredReactor ε) (cs : List (Bytes × ConnectionEnd)) : List Bytes :=
  (cs.filter fun c => c.1 ≠ s.writer.connectionId ∧ c.2.isRunning).map Prod.fst

def deliverEvent (s : MonitoredReactor ε) (d : MonitorDelivery ε) : Outcome ε :=
  if s.multithreadBranches then
    match Deliveries.skipStopped s.output.connections with
    | [] => ⟨s, [], true⟩
    | c :: cs =>
        -- the connections behind the first one have been posted
        if c.1 = s.writer.connectionId then
          let written := s.written getType d
          ⟨written.1, s.others cs, written.2⟩
        else ⟨s, c.1 :: s.others cs, true⟩
  else deliverTo getType d s.output.connections s

def isConnected (s : MonitoredReactor ε) : Prop :=
  s.writer.connectionId ∈ s.output.connections.map Prod.fst

instance (s : MonitoredReactor ε) : Decidable s.isConnected :=
  inferInstanceAs (Decidable (s.writer.connectionId ∈ s.output.connections.map Prod.fst))

def step (s : MonitoredReactor ε) : MonitorStep ε → MonitoredReactor ε
  | .deliver d => (s.deliverEvent getType d).after
  | .posted d => (s.writeEvent getType d.event d.now d.otherReaders d.otherReadersAgain).1
  | .setQP now qp => { s with writer := s.writer.setQP getType now qp }
  | .stop readers => (s.stop readers true false).1
  | .connect output =>
      let connected : MonitoredReactor ε := { s with output := output }
      -- the engine keeps the connection of the monitor
      if connected.isConnected ↔ s.isConnected then connected else s

/-! ### What it is to do -/

/-- The event fills a buffer that does not scroll. -/
def Fills (s : MonitoredReactor ε) (e : ε) : Prop :=
  s.writer.collects getType e = true ∧ s.writer.scroll = false ∧
    (MonitorWriter.pushBack s.writer.size s.writer.eventBuffer e).length = s.writer.size

/-- The thread that delivers calls the monitor. -/
def IsCalled (s : MonitoredReactor ε) : Prop :=
  s.isConnected ∧ (s.multithreadBranches = true →
    (Deliveries.skipStopped s.output.connections).head?.map Prod.fst = some s.writer.connectionId)

/-- The monitor is called, and is found idle, or its buffer is filled. -/
def Detaches (s : MonitoredReactor ε) (d : MonitorDelivery ε) : Prop :=
  s.IsCalled ∧ ∃ e, d.event = some e ∧ (s.writer.isIdle d.now = true ∨ s.Fills getType e)

/-- The call returns; and a monitor that detaches is stopped, has no connection any more, and the
other connections have got the event. -/
def DetachesCleanly (s : MonitoredReactor ε) (d : MonitorDelivery ε) : Prop :=
  (s.deliverEvent getType d).returns = true ∧
    (s.Detaches getType d →
      (s.deliverEvent getType d).after.writer.stopped = true ∧
      ¬ (s.deliverEvent getType d).after.isConnected ∧
      (s.deliverEvent getType d).passedOn = s.others s.output.connections)

/-- Some property of every delivery of a run. -/
def EveryDelivery (P : MonitoredReactor ε → MonitorDelivery ε → Prop) (s : MonitoredReactor ε) :
    List (MonitorStep ε) → Prop
  | [] => True
  | .deliver d :: steps => P s d ∧ EveryDelivery P (s.step getType (.deliver d)) steps
  | step :: steps => EveryDelivery P (s.step getType step) steps

variable {getType} {s : MonitoredReactor ε} {d : MonitorDelivery ε} {e : ε} {now : ℤ}

/-! ### The lock -/

/-- The lock is not obtained while its own thread is one of the readers. -/
lemma waitForReaders_own (others : ℕ → ℕ) (sleepTimes n : ℕ) :
    waitForReaders (fun k => others k + 1) sleepTimes n = false := by
  induction n generalizing sleepTimes with
  | zero => rfl
  | succ n ih =>
    rw [waitForReaders, if_pos (Nat.succ_pos _)]
    split_ifs
    · rfl
    · exact ih (sleepTimes + 1)

lemma removeConnection_own (s : MonitoredReactor ε) (others : ℕ → ℕ) (connectionId : Bytes) :
    s.removeConnection (fun k => others k + 1) connectionId = (s, false) := by
  rw [removeConnection, waitForReaders_own]
  rfl

/-- A temporary connection that is there is erased, and nothing else happens before the lock
throws. -/
lemma removeTempConnection_own (s : MonitoredReactor ε) (others : ℕ → ℕ) (connectionId : Bytes) :
    s.removeTempConnection (fun k => others k + 1) connectionId =
      if s.configIsOpen = false then (s, false)
      else if connectionId ∈ s.tempConnections then
        ({ s with tempConnections := s.tempConnections.erase connectionId }, false)
      else (s, true) := by
  rw [removeTempConnection, removeConnection_own]
  simp only [List.contains_iff_mem]
  cases s.configIsOpen <;> rfl

/-! ### What a call leaves -/

/-- The same connections, and a writer with the same identifier. -/
def SameConnections (s s' : MonitoredReactor ε) : Prop :=
  s'.output = s.output ∧ s'.writer.connectionId = s.writer.connectionId

lemma SameConnections.isConnected {s' : MonitoredReactor ε} (h : s.SameConnections s') :
    s'.isConnected ↔ s.isConnected := by
  rw [MonitoredReactor.isConnected, MonitoredReactor.isConnected, h.1, h.2]

lemma SameConnections.trans {s' s'' : MonitoredReactor ε} (h : s.SameConnections s')
    (h' : s'.SameConnections s'') : s.SameConnections s'' :=
  ⟨h'.1.trans h.1, h'.2.trans h.2⟩

lemma removeTempConnection_same (s : MonitoredReactor ε) (others : ℕ → ℕ) (connectionId : Bytes) :
    s.SameConnections (s.removeTempConnection (fun k => others k + 1) connectionId).1 ∧
      (s.removeTempConnection (fun k => others k + 1) connectionId).1.writer = s.writer := by
  rw [removeTempConnection_own]
  split_ifs <;> exact ⟨⟨rfl, rfl⟩, rfl⟩

/-- Stopping inside a delivery leaves the connection. -/
lemma stop_same (s : MonitoredReactor ε) (others : ℕ → ℕ) (stop flush : Bool) :
    s.SameConnections (s.stop (fun k => others k + 1) stop flush).1 := by
  obtain ⟨hsame, -⟩ := s.removeTempConnection_same others s.writer.connectionId
  rw [MonitoredReactor.stop]
  split_ifs
  · exact hsame
  · exact hsame
  · exact hsame
  · exact ⟨rfl, rfl⟩
  · exact ⟨rfl, rfl⟩
  · exact ⟨rfl, rfl⟩

lemma writeEvent_same (s : MonitoredReactor ε) (e : Option ε) (now : ℤ) (others again : ℕ → ℕ) :
    s.SameConnections
      (s.writeEvent getType e now (fun k => others k + 1) fun k => again k + 1).1 := by
  cases e with
  | none => exact s.stop_same others false false
  | some e =>
    simp only [writeEvent]
    split_ifs
    · exact s.stop_same others true true
    · exact SameConnections.trans ⟨rfl, rfl⟩ (stop_same (s.pushed getType e) others true false)
    · -- the writer has been stopped twice
      have hfirst := stop_same (s.pushed getType e) others true false
      exact SameConnections.trans (SameConnections.trans ⟨rfl, rfl⟩ hfirst)
        (stop_same _ again true false)
    · exact ⟨rfl, rfl⟩
    · exact ⟨rfl, rfl⟩

/-- The buffer of a writer is full behind the event. -/
lemma pushed_full_iff (s : MonitoredReactor ε) (e : ε) :
    (! (s.pushed getType e).writer.scroll && (s.pushed getType e).writer.isFull) = true ↔
      s.writer.scroll = false ∧
        (MonitorWriter.pushBack s.writer.size s.writer.eventBuffer e).length = s.writer.size := by
  show (! s.writer.scroll &&
    decide ((MonitorWriter.pushBack s.writer.size s.writer.eventBuffer e).length = s.writer.size)) =
      true ↔ _
  rw [Bool.and_eq_true, Bool.not_eq_true', decide_eq_true_iff]

/-- A call that does not detach the monitor returns. -/
lemma writeEvent_returns {e : Option ε} {readers again : ℕ → ℕ}
    (h : ∀ e', e = some e' → s.writer.isIdle now = false ∧ ¬ s.Fills getType e') :
    (s.writeEvent getType e now readers again).2 = true := by
  cases e with
  | none =>
    rw [writeEvent, MonitoredReactor.stop, Bool.and_false]
    rfl
  | some e =>
    obtain ⟨hidle, hfills⟩ := h e rfl
    rw [writeEvent, hidle, if_neg Bool.false_ne_true]
    by_cases hcollects : s.writer.collects getType e = true
    · have hfull : ¬ (! (s.pushed getType e).writer.scroll &&
          (s.pushed getType e).writer.isFull) = true := fun h =>
        hfills ⟨hcollects, (pushed_full_iff s e).1 h⟩
      simp only [if_pos hcollects, if_neg hfull]
    · simp only [if_neg hcollects]

/-! ### What happens instead -/

/-- The first attempt to stop inside a delivery erases the temporary connection, and throws. -/
lemma stop_own (others : ℕ → ℕ) (flush : Bool) (hstopped : s.writer.stopped = false)
    (hopen : s.configIsOpen = true) (htemp : s.writer.connectionId ∈ s.tempConnections) :
    s.stop (fun k => others k + 1) true flush =
      ({ s with tempConnections := s.tempConnections.erase s.writer.connectionId }, false) := by
  have hremove := s.removeTempConnection_own others s.writer.connectionId
  rw [if_neg (by simp [hopen]), if_pos htemp] at hremove
  rw [MonitoredReactor.stop, hstopped, hremove]
  rfl

/-- The next attempt finds no temporary connection. -/
lemma stop_again (others : ℕ → ℕ) (hopen : s.configIsOpen = true)
    (htemp : s.writer.connectionId ∉ s.tempConnections) :
    s.stop (fun k => others k + 1) true false = ({ s with writer.stopped := true }, true) := by
  have hremove := s.removeTempConnection_own others s.writer.connectionId
  rw [if_neg (by simp [hopen]), if_neg htemp] at hremove
  rw [MonitoredReactor.stop, hremove, ite_self]
  rfl

/-- An idle monitor throws, and is not stopped. -/
lemma writeEvent_idle (others again : ℕ → ℕ) (hstopped : s.writer.stopped = false)
    (hopen : s.configIsOpen = true) (htemp : s.writer.connectionId ∈ s.tempConnections)
    (hidle : s.writer.isIdle now = true) :
    s.writeEvent getType (some e) now (fun k => others k + 1) (fun k => again k + 1) =
      ({ s with tempConnections := s.tempConnections.erase s.writer.connectionId }, false) := by
  rw [writeEvent, if_pos hidle, stop_own others true hstopped hopen htemp]

/-- The call that fills a buffer returns: the exception of the first attempt to stop is caught, and
the second one finds no temporary connection.  The writer is stopped, and still connected. -/
lemma writeEvent_fills (others again : ℕ → ℕ) (hopen : s.configIsOpen = true)
    (htemp : s.writer.connectionId ∈ s.tempConnections) (hnodup : s.tempConnections.Nodup)
    (hidle : s.writer.isIdle now = false) (hfills : s.Fills getType e) :
    s.writeEvent getType (some e) now (fun k => others k + 1) (fun k => again k + 1) =
      ({ s.pushed getType e with
          tempConnections := s.tempConnections.erase s.writer.connectionId
          writer.stopped := true }, true) := by
  obtain ⟨hcollects, hfull⟩ := hfills
  have hstopped : (s.pushed getType e).writer.stopped = false := by
    simp only [MonitorWriter.collects, Bool.and_eq_true, Bool.not_eq_true'] at hcollects
    exact hcollects.2
  have hfirst := stop_own (s := s.pushed getType e) others false hstopped hopen htemp
  have hsecond := stop_again (s := { s.pushed getType e with
    tempConnections := s.tempConnections.erase s.writer.connectionId }) again hopen
    hnodup.not_mem_erase
  rw [writeEvent, hidle, if_neg Bool.false_ne_true, if_pos hcollects,
    if_pos ((pushed_full_iff s e).2 hfull), hfirst]
  exact hsecond

/-! ### Deliveries -/

variable (getType d) in
/-- Connections without the monitor get the event. -/
lemma deliverTo_of_not_mem {cs : List (Bytes × ConnectionEnd)}
    (h : s.writer.connectionId ∉ cs.map Prod.fst) :
    deliverTo getType d cs s = ⟨s, s.others cs, true⟩ := by
  induction cs with
  | nil => rfl
  | cons c cs ih =>
    rw [List.map_cons, List.mem_cons, not_or] at h
    have hne : c.1 ≠ s.writer.connectionId := fun heq => h.1 heq.symm
    rw [deliverTo, if_neg hne, ih h.2]
    by_cases hrun : c.2.isRunning = true
    · simp [others, hne, hrun]
    · simp [others, hne, hrun]

variable (getType d) in
/-- With the monitor among the connections, the delivery is its call, and the other connections get
the event if that returns. -/
lemma deliverTo_of_mem {cs : List (Bytes × ConnectionEnd)} (hnodup : (cs.map Prod.fst).Nodup)
    (h : s.writer.connectionId ∈ cs.map Prod.fst) :
    ∃ passedOn, deliverTo getType d cs s =
        ⟨(s.written getType d).1, passedOn, (s.written getType d).2⟩ ∧
      ((s.written getType d).2 = true → passedOn = s.others cs) := by
  have hsame : s.SameConnections (s.written getType d).1 :=
    s.writeEvent_same d.event d.now d.otherReaders d.otherReadersAgain
  induction cs with
  | nil => cases h
  | cons c cs ih =>
    rw [List.map_cons, List.nodup_cons] at hnodup
    by_cases hc : c.1 = s.writer.connectionId
    · -- the monitor comes only once
      have hothers : ∀ s' : MonitoredReactor ε, s.SameConnections s' →
          s'.others cs = s.others (c :: cs) := fun s' hs' => by
        simp [others, hc, hs'.2]
      rw [hc, ← hsame.2] at hnodup
      have hrest := deliverTo_of_not_mem getType d hnodup.1
      rw [deliverTo, if_pos hc]
      cases hreturns : (s.written getType d).2 with
      | true =>
        refine ⟨_, ?_, fun _ => hothers _ hsame⟩
        exact (if_pos hreturns).trans hrest
      | false => exact ⟨[], if_neg (by simp [← hreturns, written]), nofun⟩
    · have hmem : s.writer.connectionId ∈ cs.map Prod.fst := by
        rw [List.map_cons, List.mem_cons] at h
        exact h.resolve_left fun heq => hc heq.symm
      obtain ⟨passedOn, hrest, hothers⟩ := ih hnodup.2 hmem
      rw [deliverTo, if_neg hc, hrest]
      refine ⟨_, rfl, fun hreturns => ?_⟩
      by_cases hrun : c.2.isRunning = true
      · simp [others, hc, hrun, hothers hreturns]
      · simp [others, hc, hrun, hothers hreturns]

/-- The other connections come behind those that are not running. -/
lemma others_skipStopped (s : MonitoredReactor ε) (cs : List (Bytes × ConnectionEnd)) :
    s.others (Deliveries.skipStopped cs) = s.others cs := by
  have hsplit : ∀ l, s.others l = ((l.filter fun c => c.2.isRunning).filter fun c =>
      c.1 ≠ s.writer.connectionId).map Prod.fst := fun l => by
    rw [List.filter_filter, others]
    simp only [Bool.decide_and, Bool.decide_eq_true]
  rw [hsplit, hsplit, Deliveries.filter_skipStopped]

variable (getType d) in
/-- The delivery is the call of the monitor, and the other connections get the event if that
returns. -/
lemma deliverEvent_of_isCalled (h : s.IsCalled) : ∃ passedOn, s.deliverEvent getType d =
      ⟨(s.written getType d).1, passedOn, (s.written getType d).2⟩ ∧
    ((s.written getType d).2 = true → passedOn = s.others s.output.connections) := by
  obtain ⟨hconnected, hfirst⟩ := h
  cases hbranches : s.multithreadBranches with
  | false =>
    rw [deliverEvent, hbranches]
    exact deliverTo_of_mem getType d s.output.nodup hconnected
  | true =>
    have hhead := hfirst hbranches
    cases hskip : Deliveries.skipStopped s.output.connections with
    | nil => simp [hskip] at hhead
    | cons c cs =>
      have hc : c.1 = s.writer.connectionId := by simpa [hskip] using hhead
      have hothers : s.others cs = s.others s.output.connections := by
        rw [← s.others_skipStopped s.output.connections, hskip]
        simp [others, hc]
      refine ⟨s.others cs, ?_, fun _ => hothers⟩
      rw [deliverEvent, hbranches, if_pos rfl, hskip]
      exact if_pos hc

variable (getType d) in
/-- A monitor that is not called stays as it is. -/
lemma deliverEvent_of_not_isCalled (h : ¬ s.IsCalled) :
    ∃ passedOn, s.deliverEvent getType d = ⟨s, passedOn, true⟩ := by
  cases hbranches : s.multithreadBranches with
  | false =>
    have hconnected : ¬ s.isConnected := fun hconnected =>
      h ⟨hconnected, fun htrue => absurd (hbranches.symm.trans htrue) Bool.false_ne_true⟩
    rw [deliverEvent, hbranches]
    exact ⟨_, deliverTo_of_not_mem getType d hconnected⟩
  | true =>
    rw [deliverEvent, hbranches, if_pos rfl]
    cases hskip : Deliveries.skipStopped s.output.connections with
    | nil => exact ⟨_, rfl⟩
    | cons c cs =>
      have hc : c.1 ≠ s.writer.connectionId := fun hc => by
        refine h ⟨?_, fun _ => by rw [hskip, List.head?_cons, Option.map_some, hc]⟩
        have hrun := Deliveries.isRunning_of_skipStopped hskip
        have hmem : c ∈ s.output.connections.filter fun c => c.2.isRunning := by
          rw [← Deliveries.filter_skipStopped, hskip]
          exact List.mem_filter.2 ⟨List.mem_cons_self, hrun⟩
        rw [MonitoredReactor.isConnected, ← hc]
        exact List.mem_map_of_mem (List.mem_filter.1 hmem).1
      exact ⟨_, if_neg hc⟩

/-- No delivery removes the connection of the monitor. -/
lemma deliverEvent_isConnected (s : MonitoredReactor ε) (d : MonitorDelivery ε) :
    (s.deliverEvent getType d).after.isConnected ↔ s.isConnected := by
  by_cases h : s.IsCalled
  · obtain ⟨passedOn, hdeliver, -⟩ := deliverEvent_of_isCalled getType d h
    rw [hdeliver]
    exact (s.writeEvent_same d.event d.now d.otherReaders d.otherReadersAgain).isConnected
  · obtain ⟨passedOn, hdeliver⟩ := deliverEvent_of_not_isCalled getType d h
    rw [hdeliver]

/-- A delivery is as it should be exactly if the monitor does not detach in it. -/
lemma detachesCleanly_iff (s : MonitoredReactor ε) (d : MonitorDelivery ε) :
    s.DetachesCleanly getType d ↔ ¬ s.Detaches getType d := by
  constructor
  · rintro ⟨-, hclean⟩ hdetaches
    obtain ⟨-, hgone, -⟩ := hclean hdetaches
    exact hgone ((s.deliverEvent_isConnected d).2 hdetaches.1.1)
  · intro hnot
    refine ⟨?_, fun h => absurd h hnot⟩
    by_cases h : s.IsCalled
    · obtain ⟨passedOn, hdeliver, -⟩ := deliverEvent_of_isCalled getType d h
      rw [hdeliver]
      refine writeEvent_returns fun e he => ⟨?_, fun hfills => ?_⟩
      · rw [← Bool.not_eq_true]
        exact fun hidle => hnot ⟨h, e, he, .inl hidle⟩
      · exact hnot ⟨h, e, he, .inr hfills⟩
    · obtain ⟨passedOn, hdeliver⟩ := deliverEvent_of_not_isCalled getType d h
      rw [hdeliver]

/-! ### Runs -/

variable (getType) in
/-- In a run of deliveries, requests of a browser, attempts of the service to stop the monitor and
changes of other connections, every delivery is as it should be exactly if none of them finds a
connected monitor idle or fills its buffer: a monitor never detaches cleanly. -/
theorem detaches_iff (s : MonitoredReactor ε) (steps : List (MonitorStep ε)) :
    EveryDelivery getType (DetachesCleanly getType) s steps ↔
      EveryDelivery getType (fun s d => ¬ s.Detaches getType d) s steps := by
  induction steps generalizing s with
  | nil => exact Iff.rfl
  | cons step steps ih =>
    cases step with
    | deliver d => exact and_congr (s.detachesCleanly_iff d) (ih _)
    | posted d => exact ih _
    | setQP now qp => exact ih _
    | stop readers => exact ih _
    | connect output => exact ih _

/-- A monitor of two events that does not scroll, in front of another reactor. -/
def twoEvents : MonitoredReactor ℕ where
  output := ⟨[([1], .handler), ([2], .reactor true)], by decide⟩
  tempConnections := [[1]]
  writer := { connectionId := [1], size := 2, scroll := false, age := some 0 }

/-- An event, with no other readers. -/
def delivery (now : ℤ) : MonitorDelivery ℕ where
  event := some 5
  now := now
  otherReaders _ := 0
  otherReadersAgain _ := 0

/-- The second event fills the buffer and stops the writer, which stays connected; and an event
after three minutes is not passed on, and leaves the writer as it is. -/
theorem not_detachesCleanly :
    let filled := (twoEvents.step id (.deliver (delivery 1))).deliverEvent id (delivery 2)
    let idle := twoEvents.deliverEvent id (delivery 180)
    (filled.returns = true ∧ filled.after.writer.stopped = true ∧ filled.after.isConnected) ∧
    (idle.returns = false ∧ idle.after.writer.stopped = false ∧ idle.passedOn = []) ∧
    ¬ ∀ (s : MonitoredReactor ℕ) (steps : List (MonitorStep ℕ)),
      EveryDelivery id (DetachesCleanly id) s steps := by
  intro filled idle
  refine ⟨by decide, by decide, fun hall => ?_⟩
  obtain ⟨⟨hreturns, -⟩, -⟩ := hall twoEvents [.deliver (delivery 180)]
  have hthrows : (twoEvents.deliverEvent id (delivery 180)).returns = false := by decide
  exact Bool.false_ne_true (hthrows.symm.trans hreturns)

end MonitoredReactor

end PionCore.Platform
