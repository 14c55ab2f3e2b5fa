/-
# The locked queue

`PionLockedQueue`: any number of producers push items, and any number of consumers pop them.  A
consumer that finds no item puts its record in front of a list of idle consumers and waits; the
next `push` takes the first record off the list and notifies its consumer.  A consumer that wakes
up in another way leaves its record in the list.

A step is one section that is protected by one of the two mutexes, or a test of the flag
`m_is_running`.
-/
import PionCore.Lib.LinkedList
import PionCore.Lib.Runs
import Mathlib.Algebra.Group.Nat.Defs

namespace PionCore.Common

open PionCore.Lib

/-- Where a consumer is in `pop`. -/
inductive ConsumerState (τ : Type*) where
  /-- `pop` has returned an item, or false; or it was not called yet -/
  | returned (item : Option τ)
  /-- in front of the test of `isRunning` -/
  | testing
  /-- in front of `dequeue` -/
  | dequeuing
  /-- `dequeue` has found an empty queue -/
  | empty (lastKnownVersion : ℕ)
  /-- the wakeup event is waited for -/
  | waiting
  /-- the wakeup event was notified by a `push` -/
  | notified
deriving DecidableEq

/-- `ConsumerThread`. -/
structure ConsumerThread where
  isRunning : Bool := true
  next : Option ℕ := none
  hasWakeupTimer : Bool := false
deriving DecidableEq

/-- `PionLockedQueue`: the nodes behind the head, each with its item and its version, and the list
of idle consumers.  The consumers are numbered. -/
structure PionLockedQueue (τ : Type*) where
  idlePtr : Option ℕ := none
  consumers : ℕ → ConsumerThread := fun _ => {}
  states : ℕ → ConsumerState τ := fun _ => .returned none
  nodes : List (τ × ℕ) := []
  headVersion : ℕ := 0
  nextVersion : ℕ := 1

/-- The sections of the functions, by the consumer that runs them. -/
inductive QueueEvent (τ : Type*) where
  /-- the section of `push`; the wait for room in front of it only puts it off -/
  | push (t : τ)
  | pop (c : ℕ)
  /-- `pop` tests `isRunning` -/
  | test (c : ℕ)
  | dequeue (c : ℕ)
  /-- the section of `pop`, up to the wait -/
  | wait (c : ℕ)
  /-- the wait ends with the wakeup event, or without it -/
  | wakeUp (c : ℕ)
  /-- the wait ends with the time -/
  | timeOut (c : ℕ)
  | stop (c : ℕ)
  | reset (c : ℕ)

namespace PionLockedQueue

variable {τ : Type*}

/-- The versions of the nodes. -/
def versionMod : ℕ := 2 ^ 32

/-- The version of the node that `m_tail_ptr` points to. -/
def tailVersion (q : PionLockedQueue τ) : ℕ := (q.nodes.getLast?.map Prod.snd).getD q.headVersion

/-- The consumer goes on at `state`. -/
def goesOn (q : PionLockedQueue τ) (c : ℕ) (state : ConsumerState τ) : PionLockedQueue τ :=
  { q with states := Function.update q.states c state }

/-- `notify_one` for the wakeup event of a consumer, which is lost if it is not waited for. -/
def notifyOne (q : PionLockedQueue τ) (c : ℕ) : PionLockedQueue τ :=
  match q.states c with
  | .waiting => q.goesOn c .notified
  | .returned _ | .testing | .dequeuing | .empty _ | .notified => q

/-- An idle consumer is woken up, if there is one. -/
def wakeIdle (q : PionLockedQueue τ) : PionLockedQueue τ :=
  match q.idlePtr with
  | none => q
  | some c => { q with idlePtr := (q.consumers c).next }.notifyOne c

def push (q : PionLockedQueue τ) (t : τ) : PionLockedQueue τ :=
  let version := (q.nextVersion + 2) % versionMod
  { q with nextVersion := version, nodes := q.nodes ++ [(t, version)] }.wakeIdle

/-- `dequeue`, called by `pop`. -/
def dequeue (q : PionLockedQueue τ) (c : ℕ) : PionLockedQueue τ :=
  match q.nodes with
  | [] => q.goesOn c (.empty q.headVersion)
  | (t, version) :: nodes =>
      { q with nodes := nodes, headVersion := version }.goesOn c (.returned (some t))

/-- The section of `pop`: if the queue is still empty, the consumer becomes idle. -/
def wait (q : PionLockedQueue τ) (c lastKnownVersion : ℕ) : PionLockedQueue τ :=
  if q.tailVersion = lastKnownVersion then
    { q with
      consumers := Function.update q.consumers c { q.consumers c with next := q.idlePtr }
      idlePtr := some c }.goesOn c .waiting
  else q.goesOn c .testing

/-- `ConsumerThread::stop`; the notification wakes the consumer up, which it may do in any case. -/
def stop (q : PionLockedQueue τ) (c : ℕ) : PionLockedQueue τ :=
  { q with consumers := Function.update q.consumers c { q.consumers c with isRunning := false } }

/-- `ConsumerThread::reset`. -/
def reset (q : PionLockedQueue τ) (c : ℕ) : PionLockedQueue τ :=
  { q with
    consumers := Function.update q.consumers c
      { q.consumers c with isRunning := true, next := none } }

/-- The wait of a consumer has ended. -/
def endsWait (q : PionLockedQueue τ) (c : ℕ) (state : ConsumerState τ) :
    Option (PionLockedQueue τ) :=
  match q.states c with
  | .waiting | .notified => some (q.goesOn c state)
  | .returned _ | .testing | .dequeuing | .empty _ => none

def step (q : PionLockedQueue τ) : QueueEvent τ → Option (PionLockedQueue τ)
  | .push t => some (q.push t)
  | .pop c =>
      match q.states c with
      | .returned _ => some (q.goesOn c .testing)
      | .testing | .dequeuing | .empty _ | .waiting | .notified => none
  | .test c =>
      match q.states c with
      | .testing =>
          some (q.goesOn c (if (q.consumers c).isRunning then .dequeuing else .returned none))
      | .returned _ | .dequeuing | .empty _ | .waiting | .notified => none
  | .dequeue c =>
      match q.states c with
      | .dequeuing => some (q.dequeue c)
      | .returned _ | .testing | .empty _ | .waiting | .notified => none
  | .wait c =>
      match q.states c with
      | .empty lastKnownVersion => some (q.wait c lastKnownVersion)
      | .returned _ | .testing | .dequeuing | .waiting | .notified => none
  | .wakeUp c => q.endsWait c .testing
  | .timeOut c => if (q.consumers c).hasWakeupTimer then q.endsWait c (.returned none) else none
  | .stop c => some (q.stop c)
  | .reset c => some (q.reset c)

/-! ### The list of idle consumers -/

/-- The pointer to the next idle consumer. -/
def nextPtr (q : PionLockedQueue τ) (c : ℕ) : Option ℕ := (q.consumers c).next

/-- The idle list ends, and its members are the consumers that wait, each of them once. -/
def IdleList (q : PionLockedQueue τ) : Prop :=
  ∃ l : List ℕ, Linked q.nextPtr q.idlePtr l ∧ l.Nodup ∧ ∀ c, c ∈ l ↔ q.states c = .waiting

/-- If a consumer waits, then `push` notifies one that does. -/
def PushNotifies (q : PionLockedQueue τ) : Prop :=
  ∀ t c, q.states c = .waiting →
    ∃ d, q.states d = .waiting ∧ (q.push t).states d = .notified

/-- No consumer leaves its wait while its record is in the list, and no record is cut off from
those behind it. -/
def LeavesIdle (e : QueueEvent τ) (q : PionLockedQueue τ) : Prop :=
  match e with
  | .wakeUp c | .timeOut c => q.states c ≠ .waiting
  | .reset c => q.states c = .waiting → (q.consumers c).next = none
  | .push _ | .pop _ | .test _ | .dequeue _ | .wait _ | .stop _ => True

variable {q q' : PionLockedQueue τ}

/-- What the list depends on. -/
lemma IdleList.of_same (hq : q.IdleList) (hptr : q'.idlePtr = q.idlePtr)
    (hnext : q'.nextPtr = q.nextPtr)
    (hstates : ∀ c, q'.states c = .waiting ↔ q.states c = .waiting) : q'.IdleList := by
  obtain ⟨l, hl, hnodup, hmem⟩ := hq
  refine ⟨l, ?_, hnodup, fun c => (hmem c).trans (hstates c).symm⟩
  rw [hptr, hnext]
  exact hl

/-- A consumer that goes on neither from a wait nor to one. -/
lemma waiting_goesOn {c : ℕ} {state : ConsumerState τ} (hbefore : q.states c ≠ .waiting)
    (hafter : state ≠ .waiting) (d : ℕ) :
    (q.goesOn c state).states d = .waiting ↔ q.states d = .waiting := by
  by_cases hd : d = c
  · simp [goesOn, hd, hbefore, hafter]
  · simp [goesOn, hd]

lemma IdleList.push (hq : q.IdleList) (t : τ) : (q.push t).IdleList := by
  obtain ⟨l, hl, hnodup, hmem⟩ := hq
  cases l with
  | nil =>
    have hptr : q.idlePtr = none := hl
    have hsame : q.push t = { q with
        nextVersion := (q.nextVersion + 2) % versionMod
        nodes := q.nodes ++ [(t, (q.nextVersion + 2) % versionMod)] } := by
      simp [PionLockedQueue.push, wakeIdle, hptr]
    rw [hsame]
    exact ⟨[], hl, hnodup, hmem⟩
  | cons c l =>
    obtain ⟨hptr, hl⟩ := hl
    have hwaiting : q.states c = .waiting := (hmem c).1 List.mem_cons_self
    obtain ⟨hc, hnodup⟩ := List.nodup_cons.1 hnodup
    -- the first consumer is notified, and the others still wait
    refine ⟨l, ?_, hnodup, fun d => ?_⟩
    · simp only [PionLockedQueue.push, wakeIdle, hptr, notifyOne, hwaiting, goesOn]
      exact hl
    · by_cases hd : d = c
      · simp [PionLockedQueue.push, wakeIdle, hptr, notifyOne, hwaiting, goesOn, hd, hc]
      · have hmem' := hmem d
        simp only [List.mem_cons, hd, false_or] at hmem'
        simp [PionLockedQueue.push, wakeIdle, hptr, notifyOne, hwaiting, goesOn, hd, hmem']

lemma IdleList.pushNotifies (hq : q.IdleList) : q.PushNotifies := by
  obtain ⟨l, hl, -, hmem⟩ := hq
  intro t c hc
  cases l with
  | nil => exact absurd ((hmem c).2 hc) (List.not_mem_nil)
  | cons d l =>
    have hwaiting : q.states d = .waiting := (hmem d).1 List.mem_cons_self
    refine ⟨d, hwaiting, ?_⟩
    simp [PionLockedQueue.push, wakeIdle, hl.1, notifyOne, hwaiting, goesOn]

lemma IdleList.wait (hq : q.IdleList) {c v : ℕ} (hc : q.states c = .empty v) :
    (q.wait c v).IdleList := by
  have hne : q.states c ≠ .waiting := by simp [hc]
  rw [PionLockedQueue.wait]
  split_ifs
  · obtain ⟨l, hl, hnodup, hmem⟩ := hq
    have hnot : c ∉ l := fun h => hne ((hmem c).1 h)
    refine ⟨c :: l, ⟨rfl, ?_⟩, List.nodup_cons.2 ⟨hnot, hnodup⟩, fun d => ?_⟩
    · have hhead : Linked q.nextPtr
          (nextPtr { q with
            consumers := Function.update q.consumers c { q.consumers c with next := q.idlePtr }
            idlePtr := some c } c) l := by simpa [nextPtr] using hl
      refine linked_congr hhead fun b hb => ?_
      have hbc : b ≠ c := fun h => hnot (h ▸ hb)
      simp [nextPtr, goesOn, hbc]
    · by_cases hd : d = c
      · simp [goesOn, hd]
      · simp [goesOn, hd, hmem d]
  · exact hq.of_same rfl rfl (waiting_goesOn hne (by simp))

/-- A consumer that wakes up must have been notified. -/
lemma idleList_endsWait (hq : q.IdleList) {c : ℕ} {state : ConsumerState τ}
    (hstate : state ≠ .waiting) (h : q.endsWait c state = some q') :
    q'.IdleList ↔ q.states c ≠ .waiting := by
  have hq' : q' = q.goesOn c state := by
    rw [endsWait] at h
    split at h <;> first | exact (Option.some.inj h).symm | cases h
  subst hq'
  constructor
  · rintro ⟨l', hl', -, hmem'⟩ hwaiting
    obtain ⟨l, hl, -, hmem⟩ := hq
    obtain rfl := linked_unique hl hl'
    have hstill := (hmem' c).1 ((hmem c).2 hwaiting)
    simp [goesOn, hstate] at hstill
  · exact fun hne => hq.of_same rfl rfl (waiting_goesOn hne hstate)

lemma nextPtr_reset (q : PionLockedQueue τ) (c : ℕ) :
    (q.reset c).nextPtr = Function.update q.nextPtr c none := by
  funext d
  by_cases hd : d = c
  · simp [nextPtr, reset, hd]
  · simp [nextPtr, reset, hd]

/-- The record that is reset must be the last one, or not in the list. -/
lemma idleList_reset (hq : q.IdleList) (c : ℕ) :
    (q.reset c).IdleList ↔ (q.states c = .waiting → (q.consumers c).next = none) := by
  obtain ⟨l, hl, hnodup, hmem⟩ := hq
  constructor
  · rintro ⟨l', hl', -, hmem'⟩ hwaiting
    obtain ⟨l₁, l₂, rfl⟩ := List.append_of_mem ((hmem c).2 hwaiting)
    rw [nextPtr_reset] at hl'
    obtain rfl := linked_unique (linked_cut hl) hl'
    -- nothing is left of the list behind the record
    have hsuffix := (linked_suffix hl).2
    cases l₂ with
    | nil => exact hsuffix
    | cons d l₂ =>
      have hd : d ∈ l₁ ++ [c] := (hmem' d).2 ((hmem d).1 (by simp))
      rw [List.append_cons] at hnodup
      exact absurd rfl ((List.nodup_append.1 hnodup).2.2 d hd d List.mem_cons_self)
  · intro hlast
    refine ⟨l, ?_, hnodup, hmem⟩
    rw [nextPtr_reset]
    refine linked_congr hl fun b hb => ?_
    by_cases hb' : b = c
    · subst hb'
      rw [Function.update_self]
      exact (hlast ((hmem b).1 hb)).symm
    · rw [Function.update_of_ne hb']

lemma idleList_step (hq : q.IdleList) {e : QueueEvent τ} (h : q.step e = some q') :
    q'.IdleList ↔ LeavesIdle e q := by
  cases e with
  | push t =>
    obtain rfl := Option.some.inj h
    exact ⟨fun _ => trivial, fun _ => hq.push t⟩
  | pop c =>
    simp only [PionLockedQueue.step] at h
    split at h
    · rename_i hc
      obtain rfl := Option.some.inj h
      exact ⟨fun _ => trivial,
        fun _ => hq.of_same rfl rfl (waiting_goesOn (by simp [hc]) (by simp))⟩
    all_goals cases h
  | test c =>
    simp only [PionLockedQueue.step] at h
    split at h
    · rename_i hc
      obtain rfl := Option.some.inj h
      refine ⟨fun _ => trivial,
        fun _ => hq.of_same rfl rfl (waiting_goesOn (by simp [hc]) ?_)⟩
      split_ifs <;> simp
    all_goals cases h
  | dequeue c =>
    simp only [PionLockedQueue.step] at h
    split at h
    · rename_i hc
      obtain rfl := Option.some.inj h
      refine ⟨fun _ => trivial, fun _ => ?_⟩
      -- the consumer was in no list, and is in none
      have hne : q.states c ≠ .waiting := by simp [hc]
      rw [PionLockedQueue.dequeue]
      split
      · exact hq.of_same rfl rfl (waiting_goesOn hne (by simp))
      · exact hq.of_same rfl rfl (waiting_goesOn hne (by simp))
    all_goals cases h
  | wait c =>
    simp only [PionLockedQueue.step] at h
    split at h
    · rename_i v hc
      obtain rfl := Option.some.inj h
      exact ⟨fun _ => trivial, fun _ => hq.wait hc⟩
    all_goals cases h
  | wakeUp c => exact idleList_endsWait hq (by simp) h
  | timeOut c =>
    simp only [PionLockedQueue.step] at h
    split_ifs at h
    exact idleList_endsWait hq (by simp) h
  | stop c =>
    obtain rfl := Option.some.inj h
    refine ⟨fun _ => trivial, fun _ => hq.of_same rfl ?_ fun _ => Iff.rfl⟩
    funext d
    by_cases hd : d = c
    · simp [nextPtr, stop, hd]
    · simp [nextPtr, stop, hd]
  | reset c =>
    obtain rfl := Option.some.inj h
    exact idleList_reset hq c

/-! ### Runs -/

/-- An empty queue, with consumers some of which have a wakeup timer. -/
def start (hasWakeupTimer : ℕ → Bool) : PionLockedQueue τ :=
  { consumers := fun c => { hasWakeupTimer := hasWakeupTimer c } }

lemma idleList_start (hasWakeupTimer : ℕ → Bool) :
    (start hasWakeupTimer : PionLockedQueue τ).IdleList :=
  ⟨[], rfl, List.nodup_nil, fun c => by simp [start]⟩

/-- The idle list is right in every state of a run, and every `push` notifies a consumer that
waits, if and only if every consumer that leaves its wait was notified, and no record is reset in
front of others. -/
theorem idleList_run (hasWakeupTimer : ℕ → Bool) (events : List (QueueEvent τ))
    (q : PionLockedQueue τ) (h : run step (start hasWakeupTimer) events = some q) :
    (∀ u, ReachedIn step (start hasWakeupTimer) events u → u.IdleList ∧ u.PushNotifies) ↔
      ∀ e u, HappensIn step (start hasWakeupTimer) events e u → LeavesIdle e u := by
  rw [← reached_iff (idleList_start hasWakeupTimer) (fun u e u' hu he => idleList_step hu he) h]
  constructor
  · exact fun hall u hu => (hall u hu).1
  · exact fun hall u hu => ⟨hall u hu, (hall u hu).pushNotifies⟩

/-- Two consumers wait, and two items are pushed. -/
theorem idleList_run_two :
    let events := [.pop 0, .test 0, .dequeue 0, .wait 0, .pop 1, .test 1, .dequeue 1, .wait 1,
      .push 5, .wakeUp 1, .test 1, .dequeue 1, .push 6, .wakeUp 0, .test 0, .dequeue 0]
    let start : PionLockedQueue ℕ := start fun _ => false
    (run step start events).map (fun q => (q.states 0, q.states 1)) =
        some (.returned (some 6), .returned (some 5)) ∧
      ((∀ u, ReachedIn step start events u → u.IdleList ∧ u.PushNotifies) ↔
        ∀ e u, HappensIn step start events e u → LeavesIdle e u) := by
  intro events start
  have hrun : (run step start events).map (fun q => (q.states 0, q.states 1)) =
      some (.returned (some 6), .returned (some 5)) := by
    decide +kernel
  obtain ⟨q, hq, -⟩ := Option.map_eq_some_iff.1 hrun
  exact ⟨hrun, idleList_run _ events q hq⟩

/-- A consumer whose time is over waits a second time, and is its own successor.  And when another
one waits behind it, the next `push` notifies nobody. -/
theorem idleList_run_fails :
    let start : PionLockedQueue ℕ := start fun _ => true
    (run step start [.pop 0, .test 0, .dequeue 0, .wait 0, .timeOut 0, .pop 0, .test 0, .dequeue 0,
      .wait 0]).map (fun q => (q.idlePtr, q.nextPtr 0)) = some (some 0, some 0) ∧
    (run step start [.pop 1, .test 1, .dequeue 1, .wait 1, .pop 0, .test 0, .dequeue 0, .wait 0,
      .timeOut 0, .push 5]).map (fun q => (q.states 1, q.idlePtr, q.nodes.length)) =
        some (.waiting, some 1, 1) := by
  decide +kernel

end PionLockedQueue

end PionCore.Common
