/-
# Delivery of events

A reactor delivers an event to its connections in the thread that has processed it, or leaves it to
the threads of the scheduler.  With multithreaded branches only the first connection that is running
gets the event in the same thread.  The flags of the reactors do not change meanwhile, and no
handler throws.
-/
import Mathlib.Data.List.Nodup
import Mathlib.Data.List.Perm.Basic
import PionCore.Lib.Ascii

namespace PionCore.Platform

open PionCore.Lib

/-- The end of a connection: a reactor with its flag `m_is_running`, or a handler alone. -/
inductive ConnectionEnd where
  | reactor (isRunning : Bool)
  | handler
deriving DecidableEq

/-- `OutputConnection::isRunning` -/
def ConnectionEnd.isRunning : ConnectionEnd → Bool
  | reactor isRunning => isRunning
  | handler => true

/-- The connections of a reactor, in the order of their keys. -/
structure OutputConnections where
  connections : List (Bytes × ConnectionEnd)
  nodup : (connections.map Prod.fst).Nodup

/-- What has been handed over: the number of the events, the calls in the thread that delivers, and
what has been posted to the scheduler. -/
structure Deliveries (ε : Type*) where
  eventsOut : ℕ := 0
  called : List ((Bytes × ConnectionEnd) × ε) := []
  posted : List ((Bytes × ConnectionEnd) × ε) := []

namespace Deliveries

variable {ε : Type*}

/-- `OutputConnection::operator()` -/
def call (d : Deliveries ε) (e : ε) (c : Bytes × ConnectionEnd) : Deliveries ε :=
  { d with called := d.called ++ [(c, e)] }

/-- `OutputConnection::post` -/
def post (d : Deliveries ε) (e : ε) (c : Bytes × ConnectionEnd) : Deliveries ε :=
  { d with posted := d.posted ++ [(c, e)] }

/-- A connection is called, or its call is posted. -/
def send (d : Deliveries ε) (returnImmediately : Bool) (e : ε) (c : Bytes × ConnectionEnd) :
    Deliveries ε :=
  if returnImmediately then d.post e c else d.call e c

/-- The loop that skips the reactors that are not running. -/
def skipStopped : List (Bytes × ConnectionEnd) → List (Bytes × ConnectionEnd)
  | [] => []
  | c :: cs => if ! c.2.isRunning then skipStopped cs else c :: cs

/-- The loop that queues the other branches. -/
def postOthers (d : Deliveries ε) (e : ε) : List (Bytes × ConnectionEnd) → Deliveries ε
  | [] => d
  | c :: cs => postOthers (if c.2.isRunning then d.post e c else d) e cs

/-- The loop of simple scheduling. -/
def sendAll (d : Deliveries ε) (returnImmediately : Bool) (e : ε) :
    List (Bytes × ConnectionEnd) → Deliveries ε
  | [] => d
  | c :: cs =>
    sendAll (if c.2.isRunning then d.send returnImmediately e c else d) returnImmediately e cs

/-- `deliverEvent` -/
def deliverEvent (d : Deliveries ε) (multithreadBranches : Bool) (connections : OutputConnections)
    (e : ε) (returnImmediately : Bool) : Deliveries ε :=
  let d := { d with eventsOut := d.eventsOut + 1 }
  if connections.connections.isEmpty then d
  else if multithreadBranches then
    match skipStopped connections.connections with
    | [] => d
    | curThreadReactor :: others =>
      (d.postOthers e others).send returnImmediately e curThreadReactor
  else d.sendAll returnImmediately e connections.connections

/-- `Reactor::operator()` and a handler: a call reaches its end, if that is running. -/
def reached (calls : List ((Bytes × ConnectionEnd) × ε)) : List (Bytes × ε) :=
  (calls.filter fun c => c.1.2.isRunning).map fun c => (c.1.1, c.2)

/-- The keys of the connections that are running. -/
def running (connections : OutputConnections) : List Bytes :=
  (connections.connections.filter fun c => c.2.isRunning).map Prod.fst

variable (d : Deliveries ε) (e : ε) (returnImmediately : Bool) {c : Bytes × ConnectionEnd}
  {cs others : List (Bytes × ConnectionEnd)}

/-- What is in front of the first running connection is not running. -/
lemma filter_skipStopped (cs : List (Bytes × ConnectionEnd)) :
    (skipStopped cs).filter (fun c => c.2.isRunning) = cs.filter fun c => c.2.isRunning := by
  induction cs with
  | nil => rfl
  | cons c cs ih =>
    rw [skipStopped]
    split_ifs with hstopped
    · rw [ih, List.filter_cons_of_neg (by simpa using hstopped)]
    · rfl

lemma isRunning_of_skipStopped (h : skipStopped cs = c :: others) : c.2.isRunning = true := by
  induction cs with
  | nil => cases h
  | cons f cs ih =>
    rw [skipStopped] at h
    split_ifs at h with hstopped
    · exact ih h
    · obtain ⟨rfl, -⟩ := List.cons.inj h
      simpa using hstopped

/-- The other branches go to the scheduler, in their order. -/
lemma postOthers_eq (cs : List (Bytes × ConnectionEnd)) :
    d.postOthers e cs =
      { d with posted := d.posted ++ (cs.filter fun c => c.2.isRunning).map fun c => (c, e) } := by
  induction cs generalizing d with
  | nil => simp [postOthers]
  | cons c cs ih =>
    rw [postOthers, ih]
    by_cases hc : c.2.isRunning = true <;> simp [hc, post]

/-- All running connections go to the scheduler, or all are called. -/
lemma sendAll_eq (cs : List (Bytes × ConnectionEnd)) :
    d.sendAll returnImmediately e cs =
      if returnImmediately then
        { d with posted := d.posted ++ (cs.filter fun c => c.2.isRunning).map fun c => (c, e) }
      else
        { d with
          called := d.called ++ (cs.filter fun c => c.2.isRunning).map fun c => (c, e) } := by
  induction cs generalizing d with
  | nil => cases returnImmediately <;> simp [sendAll]
  | cons c cs ih =>
    rw [sendAll, ih]
    by_cases hc : c.2.isRunning = true <;> cases returnImmediately <;> simp [hc, send, post, call]

/-- The connections that are running, with the event. -/
def copies (connections : OutputConnections) (e : ε) : List ((Bytes × ConnectionEnd) × ε) :=
  (connections.connections.filter fun c => c.2.isRunning).map fun c => (c, e)

/-- In both modes the calls and the posts are one for each running connection. -/
lemma deliverEvent_perm (multithreadBranches : Bool) (connections : OutputConnections) :
    ((deliverEvent {} multithreadBranches connections e returnImmediately).called ++
      (deliverEvent {} multithreadBranches connections e returnImmediately).posted).Perm
        (copies connections e) := by
  rw [deliverEvent, copies]
  split_ifs with hempty hbranches
  · rw [List.isEmpty_iff.1 hempty]
    rfl
  · rw [← filter_skipStopped]
    cases hskip : skipStopped connections.connections with
    | nil => rfl
    | cons c others =>
      have hc := isRunning_of_skipStopped hskip
      -- the first one is called, or is posted behind the others
      rw [List.filter_cons_of_pos (by simpa using hc), List.map_cons]
      dsimp only
      rw [postOthers_eq]
      cases returnImmediately
      · exact List.Perm.refl _
      · exact List.perm_append_singleton _ _
  · rw [sendAll_eq]
    cases returnImmediately
    · simp
    · simp

lemma called_of_returnImmediately (multithreadBranches : Bool) (connections : OutputConnections) :
    (deliverEvent ({} : Deliveries ε) multithreadBranches connections e true).called = [] := by
  rw [deliverEvent]
  split_ifs
  · rfl
  · cases skipStopped connections.connections with
    | nil => rfl
    | cons c others =>
      dsimp only
      rw [postOthers_eq]
      rfl
  · rw [sendAll_eq, if_pos rfl]

lemma reached_copies (connections : OutputConnections) :
    reached (copies connections e) = (running connections).map fun key => (key, e) := by
  rw [reached, copies, running, List.filter_map, List.map_map, List.map_map, List.filter_filter]
  simp [Function.comp_def]

lemma nodup_running (connections : OutputConnections) : (running connections).Nodup :=
  connections.nodup.sublist (List.filter_sublist.map _)

/-- In whatever order the scheduler runs what has been posted, the event reaches each running
connection once and no other one, in both modes; and if the call is to return immediately, nothing
is delivered in its thread. -/
theorem deliverEvent_reaches (connections : OutputConnections)
    (order : List ((Bytes × ConnectionEnd) × ε)) (multithreadBranches : Bool)
    (horder : order.Perm
      (deliverEvent {} multithreadBranches connections e returnImmediately).posted) :
    (reached ((deliverEvent {} multithreadBranches connections e returnImmediately).called ++
        order)).Perm ((running connections).map fun key => (key, e)) ∧
      (reached ((deliverEvent {} multithreadBranches connections e returnImmediately).called ++
        order)).Nodup ∧
      (returnImmediately = true →
        (deliverEvent {} multithreadBranches connections e returnImmediately).called = []) := by
  have hperm : (reached ((deliverEvent {} multithreadBranches connections e
      returnImmediately).called ++ order)).Perm
        ((running connections).map fun key => (key, e)) := by
    rw [← reached_copies]
    refine List.Perm.map _ (List.Perm.filter _ ?_)
    exact (horder.append_left _).trans (deliverEvent_perm e _ _ _)
  refine ⟨hperm, ?_, ?_⟩
  · rw [hperm.nodup_iff]
    exact (nodup_running connections).map fun _ _ heq => congrArg Prod.fst heq
  · rintro rfl
    exact called_of_returnImmediately e multithreadBranches connections

/-- Three connections, of which the first is not running. -/
def threeConnections : OutputConnections where
  connections :=
    [(ascii "a", .reactor false), (ascii "b", .handler), (ascii "c", .reactor true)]
  nodup := by decide

/-- The scheduler runs what has been posted from the end. -/
theorem deliverEvent_reaches_three :
    (reached ((deliverEvent {} true threeConnections 7 true).called ++
        (deliverEvent {} true threeConnections 7 true).posted.reverse)).Perm
          [(ascii "b", 7), (ascii "c", 7)] ∧
      (deliverEvent {} true threeConnections 7 true).called = [] := by
  have h := deliverEvent_reaches 7 true threeConnections _ true (List.reverse_perm _)
  exact ⟨h.1, h.2.2 rfl⟩

end Deliveries

end PionCore.Platform
