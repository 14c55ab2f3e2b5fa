/-
# The server and its threads

`TCPServer`: any number of threads start, stop and join a server, accept connections and finish
them.  A step is one section of a function that is protected by the mutex; a thread that waits for
a condition gives the mutex back, and goes on with a section of its own.

`stop` clears the flag `m_is_listening` before it waits for the connections, and `join` waits for
this flag.  A `join` returns too early if and only if a `stop` has found a connection that is
still in use (`join_means_stopped`).
-/
import PionCore.Lib.Runs
import PionCore.Net.HTTPReader

namespace PionCore.Net

open PionCore.Lib

/-- Where a thread is between two sections. -/
inductive ServerThread where
  /-- in none of the functions of the server -/
  | idle
  /-- `start` has set the flag, and calls `listen` -/
  | starting
  /-- `start` calls `addActiveUser` -/
  | registering
  /-- `stop` waits for the connections -/
  | stopping
  /-- `join` waits for the server -/
  | joining
  /-- `handleAccept` has seen that the server listens, and calls `listen` -/
  | listening (c : ℕ) (acceptError : Bool)
  /-- `handleAccept` goes on with the connection -/
  | accepted (c : ℕ) (acceptError : Bool)
deriving DecidableEq

/-- `TCPServer`, with its connections numbered as they are created.  A connection is referred to
by the pool, by the handler of its `async_accept`, by a thread that runs this handler, and by the
readers and writers that use it.  The acceptor is left out, and of the scheduler there is the
number of its calls. -/
structure TCPServer where
  isListening : Bool := false
  connPool : List ℕ := []
  created : ℕ := 0
  connections : ℕ → TCPConnection := fun _ => {}
  /-- connections whose `async_accept` is pending -/
  accepting : List ℕ := []
  /-- connections that a thread has in `handleAccept` -/
  accepted : List ℕ := []
  /-- the connection is referred to by readers or writers -/
  inUse : ℕ → Bool := fun _ => false
  threads : ℕ → ServerThread := fun _ => .idle
  /-- calls of `addActiveUser` -/
  registered : ℕ := 0
  /-- calls of `stop` that have cleared the flag -/
  stops : ℕ := 0
  /-- calls of `removeActiveUser` -/
  unregistered : ℕ := 0
  /-- calls of `afterStopping` -/
  afterStoppings : ℕ := 0

/-- The sections of the functions, by the thread that runs them. -/
inductive ServerEvent where
  /-- `start`; the acceptor may fail to bind, which ends with an exception -/
  | start (t : ℕ) (bound : Bool)
  /-- `listen`, called by `start` or by `handleAccept` -/
  | listen (t : ℕ)
  /-- the end of `start` -/
  | addActiveUser (t : ℕ)
  | stop (t : ℕ) (waitUntilFinished : Bool)
  /-- `stop` wakes up, by the condition or by the time -/
  | stopWakes (t : ℕ)
  | join (t : ℕ)
  | joinWakes (t : ℕ)
  /-- `handleAccept` reads the flag -/
  | handleAccept (t c : ℕ) (acceptError : Bool)
  /-- the end of `handleAccept` -/
  | acceptEnds (t : ℕ)
  /-- `finishConnection`, called for a connection in use -/
  | finishConnection (c : ℕ)
  /-- a reader sets the lifecycle of a connection -/
  | setLifecycle (c : ℕ) (lifecycle : LifecycleType)
  /-- the last pointer of a reader or writer is dropped -/
  | release (c : ℕ)

namespace TCPServer

/-- The thread goes on at `pc`. -/
def goesOn (s : TCPServer) (t : ℕ) (pc : ServerThread) : TCPServer :=
  { s with threads := Function.update s.threads t pc }

/-- `unique` of a pointer in the pool. -/
def isUnique (s : TCPServer) (c : ℕ) : Bool :=
  ! s.inUse c && c ∉ s.accepting && c ∉ s.accepted

/-- Close some of the connections. -/
def closeConnections (s : TCPServer) (which : ℕ → Bool) : TCPServer :=
  { s with
    connections := fun c =>
      if which c = true then { s.connections c with isOpen := false } else s.connections c }

/-- `pruneConnections`. -/
def pruneConnections (s : TCPServer) : TCPServer :=
  { s.closeConnections fun c => c ∈ s.connPool && s.isUnique c with
    connPool := s.connPool.filter fun c => ! s.isUnique c }

@[simp] lemma threads_pruneConnections (s : TCPServer) : s.pruneConnections.threads = s.threads :=
  rfl

/-- The first section of `start`. -/
def start (s : TCPServer) (t : ℕ) (bound : Bool) : TCPServer :=
  if ! s.isListening then
    if bound then { s with isListening := true }.goesOn t .starting else s
  else s

def listen (s : TCPServer) : TCPServer :=
  if s.isListening then
    let c := s.created
    let s := s.pruneConnections
    { s with
      created := c + 1
      connections := Function.update s.connections c {}
      connPool := s.connPool ++ [c]
      accepting := s.accepting ++ [c] }
  else s

/-- The loop of `stop`, up to its end or to the next wait. -/
def stopLoop (s : TCPServer) (t : ℕ) : TCPServer :=
  let s := if s.connPool ≠ [] then s.pruneConnections else s
  if s.connPool ≠ [] then s.goesOn t .stopping
  else
    { s with
      unregistered := s.unregistered + 1
      afterStoppings := s.afterStoppings + 1 }.goesOn t .idle

def stop (s : TCPServer) (t : ℕ) (waitUntilFinished : Bool) : TCPServer :=
  if s.isListening then
    let s := { s with isListening := false, stops := s.stops + 1 }
    let s := if ! waitUntilFinished then s.closeConnections fun c => c ∈ s.connPool else s
    s.stopLoop t
  else s

/-- `join`, up to its end or to the next wait. -/
def join (s : TCPServer) (t : ℕ) : TCPServer :=
  s.goesOn t (if s.isListening then .joining else .idle)

/-- `handleConnection`, which is virtual: a reader takes the connection. -/
def handleConnection (s : TCPServer) (c : ℕ) : TCPServer :=
  { s with inUse := Function.update s.inUse c true }

def finishConnection (s : TCPServer) (c : ℕ) : TCPServer :=
  if s.isListening ∧ (s.connections c).getKeepAlive then s.handleConnection c
  else { s with connPool := s.connPool.erase c }

/-- `handleAccept`, up to the call of `listen` or of what is behind it. -/
def handleAccept (s : TCPServer) (t c : ℕ) (acceptError : Bool) : TCPServer :=
  { s with accepting := s.accepting.erase c, accepted := s.accepted ++ [c] }.goesOn t
    (if s.isListening then .listening c acceptError else .accepted c acceptError)

/-- The end of `handleAccept`. -/
def acceptEnds (s : TCPServer) (t c : ℕ) (acceptError : Bool) : TCPServer :=
  let s := if acceptError then s.finishConnection c else s.handleConnection c
  { s with accepted := s.accepted.erase c }.goesOn t .idle

/-- Conditions are waited for in a loop; a thread may wake up at any time. -/
def step (s : TCPServer) : ServerEvent → Option TCPServer
  | .start t bound => if s.threads t = .idle then some (s.start t bound) else none
  | .listen t =>
      match s.threads t with
      | .starting => some (s.listen.goesOn t .registering)
      | .listening c acceptError => some (s.listen.goesOn t (.accepted c acceptError))
      | .idle | .registering | .stopping | .joining | .accepted _ _ => none
  | .addActiveUser t =>
      if s.threads t = .registering then
        some ({ s with registered := s.registered + 1 }.goesOn t .idle)
      else none
  | .stop t waitUntilFinished =>
      if s.threads t = .idle then some (s.stop t waitUntilFinished) else none
  | .stopWakes t => if s.threads t = .stopping then some (s.stopLoop t) else none
  | .join t => if s.threads t = .idle then some (s.join t) else none
  | .joinWakes t => if s.threads t = .joining then some (s.join t) else none
  | .handleAccept t c acceptError =>
      if s.threads t = .idle ∧ c ∈ s.accepting then some (s.handleAccept t c acceptError) else none
  | .acceptEnds t =>
      match s.threads t with
      | .accepted c acceptError => some (s.acceptEnds t c acceptError)
      | .idle | .starting | .registering | .stopping | .joining | .listening _ _ => none
  | .finishConnection c => if s.inUse c then some (s.finishConnection c) else none
  | .setLifecycle c lifecycle =>
      if s.inUse c then
        some { s with
          connections := Function.update s.connections c
            ((s.connections c).setLifecycle lifecycle) }
      else none
  | .release c =>
      if s.inUse c then some { s with inUse := Function.update s.inUse c false } else none

/-! ### What a server that does not listen has left behind -/

/-- No `stop` is in progress: every `stop` has emptied the pool, and has called `removeActiveUser`
and `afterStopping`. -/
structure Stopped (s : TCPServer) : Prop where
  connPool : s.connPool = []
  threads : ∀ t, s.threads t ≠ .stopping
  unregistered : s.unregistered = s.stops
  afterStoppings : s.afterStoppings = s.stops

/-- A `join` that gets the mutex returns only if no `stop` is in progress. -/
def JoinMeansStopped (s : TCPServer) : Prop :=
  ∀ t e s', e = .join t ∨ e = .joinWakes t → s.step e = some s' → s'.threads t = .idle → s.Stopped

/-- What is kept as long as no `stop` has to wait. -/
structure NeverWaits (s : TCPServer) : Prop where
  connPool : s.isListening = false → s.connPool = []
  threads : ∀ t, s.threads t ≠ .stopping
  unregistered : s.unregistered = s.stops
  afterStoppings : s.afterStoppings = s.stops

/-- A `stop` has nothing to wait for: the connections that it finds are referred to by the pool
alone. -/
def FindsOrphans (e : ServerEvent) (s : TCPServer) : Prop :=
  ∀ t waitUntilFinished, e = .stop t waitUntilFinished → s.isListening = true →
    ∀ c ∈ s.connPool, s.isUnique c = true

/-! ### One step -/

variable {s s' : TCPServer}

/-- What a step can do. -/
inductive Stepped (s : TCPServer) : ServerEvent → TCPServer → Prop
  | start (t bound) : Stepped s (.start t bound) (s.start t bound)
  | listen (t pc) (hpc : pc ≠ .stopping) : Stepped s (.listen t) (s.listen.goesOn t pc)
  | addActiveUser (t) :
      Stepped s (.addActiveUser t) ({ s with registered := s.registered + 1 }.goesOn t .idle)
  | stop (t waitUntilFinished) :
      Stepped s (.stop t waitUntilFinished) (s.stop t waitUntilFinished)
  | stopWakes (t) (ht : s.threads t = .stopping) : Stepped s (.stopWakes t) (s.stopLoop t)
  | join (t) : Stepped s (.join t) (s.join t)
  | joinWakes (t) : Stepped s (.joinWakes t) (s.join t)
  | handleAccept (t c acceptError) :
      Stepped s (.handleAccept t c acceptError) (s.handleAccept t c acceptError)
  | acceptEnds (t c acceptError) : Stepped s (.acceptEnds t) (s.acceptEnds t c acceptError)
  | finishConnection (c) : Stepped s (.finishConnection c) (s.finishConnection c)
  | setLifecycle (c lifecycle) :
      Stepped s (.setLifecycle c lifecycle)
        { s with
          connections := Function.update s.connections c
            ((s.connections c).setLifecycle lifecycle) }
  | release (c) : Stepped s (.release c) { s with inUse := Function.update s.inUse c false }

lemma stepped_of_step {e : ServerEvent} (h : s.step e = some s') : s.Stepped e s' := by
  cases e <;> simp only [step, Option.ite_none_right_eq_some, Option.some.injEq] at h
  case start t bound =>
    obtain ⟨-, rfl⟩ := h
    exact .start t bound
  case listen t =>
    split at h
    · obtain rfl := Option.some.inj h
      exact .listen t .registering (by decide)
    · obtain rfl := Option.some.inj h
      exact .listen t _ (by simp)
    all_goals cases h
  case addActiveUser t =>
    obtain ⟨-, rfl⟩ := h
    exact .addActiveUser t
  case stop t waitUntilFinished =>
    obtain ⟨-, rfl⟩ := h
    exact .stop t waitUntilFinished
  case stopWakes t =>
    obtain ⟨ht, rfl⟩ := h
    exact .stopWakes t ht
  case join t =>
    obtain ⟨-, rfl⟩ := h
    exact .join t
  case joinWakes t =>
    obtain ⟨-, rfl⟩ := h
    exact .joinWakes t
  case handleAccept t c acceptError =>
    obtain ⟨-, rfl⟩ := h
    exact .handleAccept t c acceptError
  case acceptEnds t =>
    split at h
    · obtain rfl := Option.some.inj h
      exact .acceptEnds t _ _
    all_goals cases h
  case finishConnection c =>
    obtain ⟨-, rfl⟩ := h
    exact .finishConnection c
  case setLifecycle c lifecycle =>
    obtain ⟨-, rfl⟩ := h
    exact .setLifecycle c lifecycle
  case release c =>
    obtain ⟨-, rfl⟩ := h
    exact .release c

/-- A thread goes on, and only `stop` changes what else it depends on. -/
lemma NeverWaits.moved (hs : s.NeverWaits) {t : ℕ} {pc : ServerThread}
    (hthreads : s'.threads = Function.update s.threads t pc) (hpc : pc ≠ .stopping)
    (hpool : s'.isListening = false → s'.connPool = [])
    (hcounts : (s'.stops, s'.unregistered, s'.afterStoppings) =
      (s.stops, s.unregistered, s.afterStoppings)) : s'.NeverWaits := by
  simp only [Prod.mk.injEq] at hcounts
  obtain ⟨hstops, hun, hafter⟩ := hcounts
  refine ⟨hpool, fun u => ?_, ?_, ?_⟩
  · rw [hthreads]
    by_cases hu : u = t
    · simpa [hu] using hpc
    · simpa [hu] using hs.threads u
  · rw [hun, hstops, hs.unregistered]
  · rw [hafter, hstops, hs.afterStoppings]

lemma NeverWaits.listen (hs : s.NeverWaits) : s.listen.NeverWaits := by
  rw [TCPServer.listen]
  split_ifs with hlisten
  · refine ⟨fun hnot => ?_, hs.threads, hs.unregistered, hs.afterStoppings⟩
    have hsame : s.isListening = false := hnot
    rw [hlisten] at hsame
    cases hsame
  · exact hs

lemma NeverWaits.finishConnection (hs : s.NeverWaits) (c : ℕ) :
    (s.finishConnection c).NeverWaits := by
  rw [TCPServer.finishConnection]
  split_ifs
  · exact ⟨hs.connPool, hs.threads, hs.unregistered, hs.afterStoppings⟩
  · refine ⟨fun hnot => ?_, hs.threads, hs.unregistered, hs.afterStoppings⟩
    have hnil : s.connPool = [] := hs.connPool hnot
    simp [hnil]

/-- The loop of `stop` ends at once when there are only orphaned connections. -/
lemma stopLoop_orphans (h : ∀ c ∈ s.connPool, s.isUnique c = true) (t : ℕ) :
    (s.stopLoop t).connPool = [] ∧ (s.stopLoop t).threads = Function.update s.threads t .idle ∧
      (s.stopLoop t).isListening = s.isListening ∧ (s.stopLoop t).stops = s.stops ∧
        (s.stopLoop t).unregistered = s.unregistered + 1 ∧
          (s.stopLoop t).afterStoppings = s.afterStoppings + 1 := by
  have hpruned : s.pruneConnections.connPool = [] := by simpa [pruneConnections] using h
  rw [stopLoop]
  by_cases hnil : s.connPool = []
  · simp [hnil, goesOn]
  · rw [if_pos hnil]
    simp only [hpruned, ne_eq, not_true_eq_false, if_false, goesOn]
    exact ⟨trivial, rfl, rfl, rfl, rfl, rfl⟩

/-- Otherwise the thread waits, and the flag is cleared. -/
lemma stopLoop_waits {c : ℕ} (hc : c ∈ s.connPool) (hused : s.isUnique c = false) (t : ℕ) :
    (s.stopLoop t).threads t = .stopping ∧ (s.stopLoop t).isListening = s.isListening := by
  have hpruned : s.pruneConnections.connPool ≠ [] := by
    have hmem : c ∈ s.pruneConnections.connPool := by simp [pruneConnections, hc, hused]
    exact List.ne_nil_of_mem hmem
  rw [stopLoop]
  rw [if_pos (List.ne_nil_of_mem hc)]
  simp only [if_pos hpruned, goesOn, Function.update_self, true_and]
  rfl

/-- The server in which `stop` has cleared the flag, and has closed the connections if it does not
wait until they are finished. -/
lemma stop_eq (hlisten : s.isListening = true) (t : ℕ) (waitUntilFinished : Bool) :
    ∃ u : TCPServer, s.stop t waitUntilFinished = u.stopLoop t ∧ u.connPool = s.connPool ∧
      (∀ c, u.isUnique c = s.isUnique c) ∧ u.threads = s.threads ∧ u.isListening = false ∧
        u.stops = s.stops + 1 ∧ u.unregistered = s.unregistered ∧
          u.afterStoppings = s.afterStoppings := by
  rw [stop, if_pos hlisten]
  cases waitUntilFinished
  · exact ⟨_, rfl, rfl, fun _ => rfl, rfl, rfl, rfl, rfl, rfl⟩
  · exact ⟨_, rfl, rfl, fun _ => rfl, rfl, rfl, rfl, rfl, rfl⟩

lemma NeverWaits.stop (hs : s.NeverWaits) {t : ℕ} {waitUntilFinished : Bool}
    (h : s.isListening = true → ∀ c ∈ s.connPool, s.isUnique c = true) :
    (s.stop t waitUntilFinished).NeverWaits := by
  by_cases hlisten : s.isListening = true
  · obtain ⟨u, heq, hpool, hunique, hthreads, -, hstops, hun, hafter⟩ :=
      stop_eq hlisten t waitUntilFinished
    have horphans : ∀ c ∈ u.connPool, u.isUnique c = true := by
      intro c hc
      rw [hunique]
      exact h hlisten c (hpool ▸ hc)
    obtain ⟨hnil, hidle, -, hsame, hun', hafter'⟩ := stopLoop_orphans horphans t
    rw [heq]
    refine ⟨fun _ => hnil, fun v => ?_, ?_, ?_⟩
    · rw [hidle, hthreads]
      by_cases hv : v = t
      · simp [hv]
      · simpa [hv] using hs.threads v
    · rw [hun', hsame, hun, hstops, hs.unregistered]
    · rw [hafter', hsame, hafter, hstops, hs.afterStoppings]
  · rw [TCPServer.stop, if_neg hlisten]
    exact hs

/-- As long as every `stop` finds only orphaned connections, no `stop` waits. -/
lemma NeverWaits.step (hs : s.NeverWaits) {e : ServerEvent} (he : FindsOrphans e s)
    (h : s.step e = some s') : s'.NeverWaits := by
  cases stepped_of_step h with
  | start t bound =>
    rw [TCPServer.start]
    split_ifs
    · exact hs.moved rfl (by decide) (fun hnot => by cases hnot) rfl
    · exact hs
    · exact hs
  | listen t pc hpc => exact hs.listen.moved rfl hpc hs.listen.connPool rfl
  | addActiveUser t => exact hs.moved rfl (by decide) hs.connPool rfl
  | stop t waitUntilFinished => exact hs.stop (he t waitUntilFinished rfl)
  | stopWakes t ht => exact absurd ht (hs.threads t)
  | join t | joinWakes t =>
    refine hs.moved rfl ?_ hs.connPool rfl
    split_ifs <;> decide
  | handleAccept t c acceptError =>
    refine hs.moved rfl ?_ hs.connPool rfl
    split_ifs <;> simp
  | acceptEnds t c acceptError =>
    cases acceptError with
    | true =>
      have hfinish := hs.finishConnection c
      exact hfinish.moved rfl (by decide) hfinish.connPool rfl
    | false => exact hs.moved rfl (by decide) hs.connPool rfl
  | finishConnection c => exact hs.finishConnection c
  | setLifecycle c lifecycle | release c =>
    exact ⟨hs.connPool, hs.threads, hs.unregistered, hs.afterStoppings⟩

/-- A `join` returns if and only if the flag is cleared. -/
lemma join_idle {t : ℕ} : (s.join t).threads t = .idle ↔ s.isListening = false := by
  cases hl : s.isListening <;> simp [join, goesOn, hl]

lemma NeverWaits.joinMeansStopped (hs : s.NeverWaits) : s.JoinMeansStopped := by
  have hreturns : ∀ t, (s.join t).threads t = .idle → s.Stopped := fun t ht =>
    ⟨hs.connPool (join_idle.1 ht), hs.threads, hs.unregistered, hs.afterStoppings⟩
  rintro t e s' (rfl | rfl) h hidle
  · simp only [TCPServer.step] at h
    split_ifs at h
    obtain rfl := Option.some.inj h
    exact hreturns t hidle
  · simp only [TCPServer.step] at h
    split_ifs at h
    obtain rfl := Option.some.inj h
    exact hreturns t hidle

/-! ### Runs -/

/-- A step moves one thread. -/
lemma threads_step {e : ServerEvent} (h : s.step e = some s') :
    ∃ t pc, s'.threads = Function.update s.threads t pc := by
  have hstay : ∃ t pc, s.threads = Function.update s.threads t pc :=
    ⟨0, s.threads 0, (Function.update_eq_self 0 s.threads).symm⟩
  have hlisten : s.listen.threads = s.threads := by
    rw [TCPServer.listen]
    split_ifs <;> rfl
  have hfinish : ∀ c, (s.finishConnection c).threads = s.threads := by
    intro c
    rw [TCPServer.finishConnection]
    split_ifs <;> rfl
  have hloop : ∀ u : TCPServer, u.threads = s.threads →
      ∀ t, ∃ pc, (u.stopLoop t).threads = Function.update s.threads t pc := by
    intro u hu t
    rw [← hu]
    rw [stopLoop]
    by_cases hnil : u.connPool = []
    · exact ⟨.idle, by simp [hnil, goesOn]⟩
    · by_cases hpruned : u.pruneConnections.connPool = []
      · exact ⟨.idle, by simp [hnil, hpruned, goesOn]⟩
      · exact ⟨.stopping, by simp [hnil, hpruned, goesOn]⟩
  cases stepped_of_step h with
  | start t bound =>
    rw [TCPServer.start]
    split_ifs
    · exact ⟨t, .starting, rfl⟩
    · exact hstay
    · exact hstay
  | listen t pc => exact ⟨t, pc, by rw [← hlisten]; rfl⟩
  | addActiveUser t => exact ⟨t, .idle, rfl⟩
  | stop t waitUntilFinished =>
    by_cases hl : s.isListening = true
    · obtain ⟨u, heq, -, -, hu, -⟩ := stop_eq hl t waitUntilFinished
      rw [heq]
      exact ⟨t, hloop u hu t⟩
    · rw [TCPServer.stop, if_neg hl]
      exact hstay
  | stopWakes t => exact ⟨t, hloop s rfl t⟩
  | join t | joinWakes t | handleAccept t => exact ⟨t, _, rfl⟩
  | acceptEnds t c acceptError =>
    cases acceptError with
    | true => exact ⟨t, .idle, by rw [← hfinish c]; rfl⟩
    | false => exact ⟨t, .idle, rfl⟩
  | finishConnection c =>
    rw [hfinish c]
    exact hstay
  | setLifecycle c lifecycle | release c => exact hstay

/-- Behind a run there are threads that have not done anything. -/
lemma idle_run {events : List ServerEvent} (h : run step {} events = some s) :
    ∃ n, ∀ t, n ≤ t → s.threads t = .idle := by
  refine run_invariant (P := fun s => ∃ n, ∀ t, n ≤ t → s.threads t = .idle) ?_
    ⟨0, fun _ _ => rfl⟩ h
  rintro u e u' ⟨n, hn⟩ hstep
  obtain ⟨t, pc, hthreads⟩ := threads_step hstep
  refine ⟨max n (t + 1), fun v hv => ?_⟩
  have hne : v ≠ t := by omega
  rw [hthreads, Function.update_of_ne hne]
  exact hn v (by omega)

/-- In every state of a run a `join` returns only behind all `stop`s, if and only if every `stop`
finds a server that does not listen, or one with orphaned connections only. -/
theorem join_means_stopped (events : List ServerEvent) (s : TCPServer)
    (h : run step {} events = some s) :
    (∀ u, ReachedIn step {} events u → u.JoinMeansStopped) ↔
      ∀ e u, HappensIn step {} events e u → FindsOrphans e u := by
  constructor
  · rintro hall e u hu t waitUntilFinished rfl hlisten c hc
    by_contra hused
    obtain ⟨before, after, u', rfl, hbefore, hstep, hsnoc⟩ := hu.next h
    -- behind this section of `stop`, a new thread joins the server
    have hjoin := hall u' ⟨before ++ [_], after, by simp, hsnoc⟩
    obtain ⟨n, hn⟩ := idle_run hsnoc
    simp only [TCPServer.step] at hstep
    split_ifs at hstep
    obtain rfl := Option.some.inj hstep
    obtain ⟨v, heq, hpool, hunique, -, hflag, -⟩ := stop_eq hlisten t waitUntilFinished
    obtain ⟨hwaits, hsame⟩ := stopLoop_waits (s := v) (hpool ▸ hc)
      (by rw [hunique]; simpa using hused) t
    rw [← heq] at hwaits hsame
    have hreturns := (join_idle (s := u.stop t waitUntilFinished) (t := n)).2 (hsame.trans hflag)
    have hstopped := hjoin n (.join n) _ (Or.inl rfl)
      (by simp only [TCPServer.step]; rw [if_pos (hn n le_rfl)]) hreturns
    exact hstopped.threads t hwaits
  · rintro hall u ⟨before, after, rfl, hu⟩
    refine NeverWaits.joinMeansStopped (reached_invariant (Q := FindsOrphans) ?_
      (fun v e v' hv he hstep => hv.step he hstep) (fun e v hv => hall e v (hv.append after)) hu)
    exact ⟨fun _ => rfl, fun _ => by simp, rfl, rfl⟩

/-- A server that is stopped before it accepts a connection, and is joined. -/
theorem join_means_stopped_empty :
    let events := [.start 0 true, .stop 1 true, .join 2, .listen 0, .addActiveUser 0]
    (run step {} events).isSome = true ∧
      ((∀ u, ReachedIn step {} events u → u.JoinMeansStopped) ↔
        ∀ e u, HappensIn step {} events e u → FindsOrphans e u) := by
  intro events
  have hsome : (run step {} events).isSome = true := by decide +kernel
  obtain ⟨s, hs⟩ := Option.isSome_iff_exists.1 hsome
  exact ⟨hsome, join_means_stopped events s hs⟩

/-- A server is started and stopped, and joined while `stop` waits for the connection that is
being accepted: the call of `join` returns. -/
theorem join_means_stopped_fails :
    (run step {} [.start 0 true, .listen 0, .addActiveUser 0, .stop 1 true, .join 2]).map
      (fun s => (s.threads 2, s.threads 1, s.connPool, s.registered, s.unregistered,
        s.afterStoppings)) = some (.idle, .stopping, [0], 1, 0, 0) := by
  decide +kernel

end TCPServer

end PionCore.Net
