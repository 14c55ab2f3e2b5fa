/-
# The thread scheduler

`PionScheduler`: the scheduler is started by its first user, and `shutdown` waits until there are
no more users.  `addActiveUser` tests the flag `m_is_running` before it locks the mutex; a step is
one section of a function that is protected by the mutex, or this test.
-/
import PionCore.Lib.Runs
import Mathlib.Algebra.Group.Nat.Defs

namespace PionCore.Common

open PionCore.Lib

/-- Where a thread is between two sections. -/
inductive SchedulerThread where
  | idle
  /-- `addActiveUser` has seen that the scheduler is not running -/
  | starting
  /-- `addActiveUser` goes on with the number of users -/
  | adding
  /-- `shutdown` waits for the users -/
  | stopping
deriving DecidableEq

/-- `PionScheduler`, with the pool of threads of `PionSingleServiceScheduler`. -/
structure PionScheduler where
  /-- the users that have returned from `addActiveUser`, and not yet called `removeActiveUser` -/
  users : ℕ := 0
  numThreads : ℕ := 8
  /-- `m_active_users`, of 32 bits -/
  activeUsers : ℕ := 0
  isRunning : Bool := false
  servicesStopped : Bool := true
  threadsStopped : Bool := true
  threadPool : ℕ := 0
  threads : ℕ → SchedulerThread := fun _ => .idle

/-- The sections of the functions, by the thread that runs them. -/
inductive SchedulerEvent where
  | startup (t : ℕ)
  /-- `addActiveUser` reads the flag -/
  | addActiveUser (t : ℕ)
  /-- `startup`, called by `addActiveUser` -/
  | startsUp (t : ℕ)
  /-- the end of `addActiveUser` -/
  | increments (t : ℕ)
  | removeActiveUser (t : ℕ)
  | shutdown (t : ℕ)
  /-- `shutdown` wakes up -/
  | shutdownWakes (t : ℕ)
  | setNumThreads (n : ℕ)
deriving DecidableEq

namespace PionScheduler

/-- The values of `m_active_users`. -/
def userMod : ℕ := 2 ^ 32

/-- The thread goes on at `pc`. -/
def goesOn (s : PionScheduler) (t : ℕ) (pc : SchedulerThread) : PionScheduler :=
  { s with threads := Function.update s.threads t pc }

def startup (s : PionScheduler) : PionScheduler :=
  if ! s.isRunning then
    { s with
      isRunning := true
      servicesStopped := false
      threadsStopped := false
      threadPool := s.threadPool + s.numThreads }
  else s

/-- `stopServices`, `stopThreads`, `finishServices` and `finishThreads`. -/
def stopAndFinish (s : PionScheduler) : PionScheduler :=
  { s with servicesStopped := true, threadsStopped := true, threadPool := 0 }

/-- The loop of `shutdown`, up to the next wait or to its end. -/
def shutdownLoop (s : PionScheduler) (t : ℕ) : PionScheduler :=
  if s.activeUsers > 0 then s.goesOn t .stopping
  else { s.stopAndFinish with isRunning := false }.goesOn t .idle

def shutdown (s : PionScheduler) (t : ℕ) : PionScheduler :=
  if s.isRunning then s.shutdownLoop t else s.stopAndFinish

/-- The section of `addActiveUser`. -/
def increments (s : PionScheduler) : PionScheduler :=
  { s with activeUsers := (s.activeUsers + 1) % userMod, users := s.users + 1 }

def removeActiveUser (s : PionScheduler) : PionScheduler :=
  { s with activeUsers := (s.activeUsers + (userMod - 1)) % userMod, users := s.users - 1 }

/-- A user calls `removeActiveUser` once, behind its `addActiveUser`.  The condition of `shutdown`
is waited for in a loop, and the thread may wake up at any time. -/
def step (s : PionScheduler) : SchedulerEvent → Option PionScheduler
  | .startup t => if s.threads t = .idle then some s.startup else none
  | .addActiveUser t =>
      if s.threads t = .idle then
        some (s.goesOn t (if ! s.isRunning then .starting else .adding))
      else none
  | .startsUp t => if s.threads t = .starting then some (s.startup.goesOn t .adding) else none
  | .increments t => if s.threads t = .adding then some (s.increments.goesOn t .idle) else none
  | .removeActiveUser t =>
      if s.threads t = .idle ∧ 0 < s.users then some s.removeActiveUser else none
  | .shutdown t => if s.threads t = .idle then some (s.shutdown t) else none
  | .shutdownWakes t => if s.threads t = .stopping then some (s.shutdownLoop t) else none
  | .setNumThreads n => some { s with numThreads := n }

/-! ### The users of a scheduler -/

/-- As long as there are users, the scheduler is running, and its services and threads have not
been stopped. -/
def Serves (s : PionScheduler) : Prop :=
  0 < s.users → s.isRunning = true ∧ s.servicesStopped = false ∧ s.threadsStopped = false

/-- What holds in any case. -/
structure Consistent (s : PionScheduler) : Prop where
  services : s.isRunning = true → s.servicesStopped = false ∧ s.threadsStopped = false
  activeUsers : s.activeUsers = s.users % userMod

/-- The users are counted while the scheduler is running, and `shutdown` does not run while their
number is one that `m_active_users` takes for zero. -/
def Counted (e : SchedulerEvent) (s : PionScheduler) : Prop :=
  match e with
  | .increments _ => s.isRunning = true
  | .shutdown _ | .shutdownWakes _ => s.users % userMod = 0 → s.users = 0
  | .startup _ | .addActiveUser _ | .startsUp _ | .removeActiveUser _ | .setNumThreads _ => True

variable {s s' : PionScheduler}

/-- What a step can do. -/
inductive Stepped (s : PionScheduler) : SchedulerEvent → PionScheduler → Prop
  | startup (t) : Stepped s (.startup t) s.startup
  | addActiveUser (t pc) : Stepped s (.addActiveUser t) (s.goesOn t pc)
  | startsUp (t) : Stepped s (.startsUp t) (s.startup.goesOn t .adding)
  | increments (t) : Stepped s (.increments t) (s.increments.goesOn t .idle)
  | removeActiveUser (t) (hpos : 0 < s.users) : Stepped s (.removeActiveUser t) s.removeActiveUser
  | shutdown (t) : Stepped s (.shutdown t) (s.shutdown t)
  | shutdownWakes (t) : Stepped s (.shutdownWakes t) (s.shutdownLoop t)
  | setNumThreads (n) : Stepped s (.setNumThreads n) { s with numThreads := n }

lemma stepped_of_step {e : SchedulerEvent} (h : s.step e = some s') : s.Stepped e s' := by
  cases e <;> simp only [step, Option.ite_none_right_eq_some, Option.some.injEq] at h
  case startup t =>
    obtain ⟨-, rfl⟩ := h
    exact .startup t
  case addActiveUser t =>
    obtain ⟨-, rfl⟩ := h
    exact .addActiveUser t _
  case startsUp t =>
    obtain ⟨-, rfl⟩ := h
    exact .startsUp t
  case increments t =>
    obtain ⟨-, rfl⟩ := h
    exact .increments t
  case removeActiveUser t =>
    obtain ⟨⟨-, hpos⟩, rfl⟩ := h
    exact .removeActiveUser t hpos
  case shutdown t =>
    obtain ⟨-, rfl⟩ := h
    exact .shutdown t
  case shutdownWakes t =>
    obtain ⟨-, rfl⟩ := h
    exact .shutdownWakes t
  case setNumThreads n =>
    obtain rfl := h
    exact .setNumThreads n

lemma Consistent.startup (hs : s.Consistent) : s.startup.Consistent := by
  rw [PionScheduler.startup]
  split_ifs
  · exact ⟨fun _ => ⟨rfl, rfl⟩, hs.activeUsers⟩
  · exact hs

lemma Consistent.shutdownLoop (hs : s.Consistent) (t : ℕ) : (s.shutdownLoop t).Consistent := by
  rw [PionScheduler.shutdownLoop]
  split_ifs
  · exact ⟨hs.services, hs.activeUsers⟩
  · exact ⟨fun h => absurd h Bool.false_ne_true, hs.activeUsers⟩

lemma Consistent.step (hs : s.Consistent) {e : SchedulerEvent} (h : s.step e = some s') :
    s'.Consistent := by
  cases stepped_of_step h with
  | startup t => exact hs.startup
  | addActiveUser t pc => exact ⟨hs.services, hs.activeUsers⟩
  | startsUp t => exact ⟨hs.startup.services, hs.startup.activeUsers⟩
  | increments t =>
    refine ⟨hs.services, ?_⟩
    dsimp only [PionScheduler.increments, goesOn]
    rw [hs.activeUsers, Nat.mod_add_mod]
  | removeActiveUser t hpos =>
    refine ⟨hs.services, ?_⟩
    dsimp only [PionScheduler.removeActiveUser]
    -- the count goes down by one, by the largest number that it can have
    have hsum : s.users + (userMod - 1) = s.users - 1 + userMod := by
      have hmod : 0 < userMod := Nat.two_pow_pos 32
      omega
    rw [hs.activeUsers, Nat.mod_add_mod, hsum, Nat.add_mod_right]
  | shutdown t =>
    rw [PionScheduler.shutdown]
    split_ifs with hrun
    · exact hs.shutdownLoop t
    · exact ⟨fun h => absurd h hrun, hs.activeUsers⟩
  | shutdownWakes t => exact hs.shutdownLoop t
  | setNumThreads n => exact ⟨hs.services, hs.activeUsers⟩

/-- With users, the loop of `shutdown` waits unless they are taken for none. -/
lemma serves_shutdownLoop (hc : s.Consistent) (hs : s.Serves) (t : ℕ) :
    (s.shutdownLoop t).Serves ↔ (s.users % userMod = 0 → s.users = 0) := by
  rw [PionScheduler.shutdownLoop]
  split_ifs with hpos
  · rw [hc.activeUsers] at hpos
    exact ⟨fun _ hzero => by omega, fun _ => hs⟩
  · have hzero : s.users % userMod = 0 := by
      rw [hc.activeUsers] at hpos
      omega
    constructor
    · intro hserves _
      by_contra hne
      exact absurd (hserves (Nat.pos_of_ne_zero hne)).1 Bool.false_ne_true
    · intro hnone hpos'
      have husers : 0 < s.users := hpos'
      rw [hnone hzero] at husers
      exact absurd husers (Nat.lt_irrefl 0)

/-- A step that is counted keeps the promise to the users, and no other one does. -/
lemma serves_step (hc : s.Consistent) (hs : s.Serves) {e : SchedulerEvent}
    (h : s.step e = some s') : s'.Serves ↔ Counted e s := by
  have hstartup : s.startup.Serves := by
    rw [PionScheduler.startup]
    split_ifs
    · exact fun _ => ⟨rfl, rfl, rfl⟩
    · exact hs
  cases stepped_of_step h with
  | startup t => exact ⟨fun _ => trivial, fun _ => hstartup⟩
  | addActiveUser t pc => exact ⟨fun _ => trivial, fun _ => hs⟩
  | startsUp t => exact ⟨fun _ => trivial, fun _ => hstartup⟩
  | increments t =>
    constructor
    · intro hserves
      exact (hserves (Nat.succ_pos s.users)).1
    · intro hrun _
      exact ⟨hrun, hc.services hrun⟩
  | removeActiveUser t hpos => exact ⟨fun _ => trivial, fun _ _ => hs hpos⟩
  | shutdown t =>
    rw [PionScheduler.shutdown]
    split_ifs with hrun
    · exact serves_shutdownLoop hc hs t
    · -- a scheduler that is not running has no users
      have hnone : s.users = 0 := by
        by_contra hne
        exact hrun (hs (Nat.pos_of_ne_zero hne)).1
      refine ⟨fun _ _ => hnone, fun _ hpos => ?_⟩
      have husers : 0 < s.users := hpos
      rw [hnone] at husers
      exact absurd husers (Nat.lt_irrefl 0)
  | shutdownWakes t => exact serves_shutdownLoop hc hs t
  | setNumThreads n => exact ⟨fun _ => trivial, fun _ => hs⟩

/-! ### Runs -/

lemma consistent_start : ({} : PionScheduler).Consistent :=
  ⟨fun h => absurd h Bool.false_ne_true, rfl⟩

/-- The scheduler serves its users in every state of a run, if and only if it is running whenever
a user is counted, and `shutdown` never runs with so many users that they are taken for none. -/
theorem serves_run (events : List SchedulerEvent) (s : PionScheduler)
    (h : run step {} events = some s) :
    (∀ u, ReachedIn step {} events u → u.Serves) ↔
      ∀ e u, HappensIn step {} events e u → Counted e u := by
  have hboth := reached_iff (P := fun u => u.Consistent ∧ u.Serves) (Q := Counted)
    ⟨consistent_start, fun hpos => absurd hpos (Nat.lt_irrefl 0)⟩
    (fun u e u' hu he => ⟨fun hu' => (serves_step hu.1 hu.2 he).1 hu'.2,
      fun hcounted => ⟨hu.1.step he, (serves_step hu.1 hu.2 he).2 hcounted⟩⟩) h
  rw [← hboth]
  constructor
  · rintro hall u ⟨before, after, heq, hu⟩
    refine ⟨?_, hall u ⟨before, after, heq, hu⟩⟩
    exact run_invariant (fun v e v' hv he => hv.step he) consistent_start hu
  · exact fun hall u hu => (hall u hu).2

/-- A user of a scheduler that is shut down while it is used, and again behind it. -/
theorem serves_run_user :
    let events := [.addActiveUser 0, .startsUp 0, .increments 0, .shutdown 1, .addActiveUser 2,
      .increments 2, .removeActiveUser 0, .removeActiveUser 2, .shutdownWakes 1]
    (run step {} events).isSome = true ∧
      ((∀ u, ReachedIn step {} events u → u.Serves) ↔
        ∀ e u, HappensIn step {} events e u → Counted e u) := by
  intro events
  have hsome : (run step {} events).isSome = true := by decide +kernel
  obtain ⟨s, hs⟩ := Option.isSome_iff_exists.1 hsome
  exact ⟨hsome, serves_run events s hs⟩

/-- The scheduler is shut down between the test of the flag and the count of the user. -/
theorem serves_run_fails :
    (run step {} [.startup 0, .addActiveUser 1, .shutdown 2, .increments 1]).map
      (fun s => (s.threads 1, s.users, s.isRunning, s.servicesStopped)) =
        some (.idle, 1, false, true) := by
  decide +kernel

end PionScheduler

end PionCore.Common
