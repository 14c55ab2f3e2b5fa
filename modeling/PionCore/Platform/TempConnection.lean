/-
# The mutexes of temporary connections

A feed or a monitor has a temporary connection to a reactor, and a mutex of its own.  When the
engine removes a reactor or stops, it tells the connections while it holds the engine mutex; when a
feed ends or a monitor stops, it removes its connection while it holds its own mutex.  Each waits
for the mutex of the other one.  A step locks or unlocks a mutex, or calls into the other class;
there may be any number of threads of each kind.
-/
import PionCore.Lib.Mutexes
import PionCore.Lib.Runs

namespace PionCore.Platform

open PionCore.Lib

/-- The mutex of the engine, and those of the feeds and monitors. -/
inductive ConnectionMutex (η : Type*) where
  | engine
  | handler (h : η)
deriving DecidableEq

/-- What a thread does with a feed or monitor: the end of `FeedReader::start`, `MonitorWriter::stop`
(also for an idle monitor), or `MonitorWriter::writeEvent`, which calls `stop` if the buffer gets
full. -/
inductive HandlerCall where
  | finish
  | stop
  | writeEvent (full : Bool)
deriving DecidableEq

/-- Where a thread is.  In the engine, `reactor` is the one that is removed, or `none` to stop all,
and `rest` are the connections that have not been told yet. -/
inductive Place (ρ η : Type*) where
  | idle
  | engineLock (reactor : Option ρ)
  | removing (reactor : Option ρ) (rest : List η)
  /-- in the removed-handler, in front of the mutex of the feed or monitor -/
  | handlerLock (reactor : Option ρ) (h : η) (rest : List η)
  | handler (reactor : Option ρ) (h : η) (rest : List η)
  | ownLock (call : HandlerCall) (h : η)
  | own (call : HandlerCall) (h : η)
  /-- in `removeTempConnection`, in front of the engine mutex -/
  | unregisterLock (call : HandlerCall) (h : η)
  | unregister (call : HandlerCall) (h : η)
  | unregistered (call : HandlerCall) (h : η)

/-- The engine with its temporary connections (reactor, and feed or monitor), and the threads; a
feed or monitor is connected if `m_reactor_ptr != NULL` or `! m_stopped`. -/
structure TempConnections (ι ρ η : Type*) where
  isRunning : Bool := true
  tempConnections : List (ρ × η)
  connected : η → Bool := fun _ => true
  owner : ConnectionMutex η → Option ι := fun _ => none
  threads : ι → Place ρ η := fun _ => .idle

inductive ConnectionEvent (ι ρ η : Type*) where
  | removeReactor (t : ι) (reactor : ρ)
  | stopEngine (t : ι)
  | call (t : ι) (call : HandlerCall) (h : η)
  /-- the next step of a thread -/
  | next (t : ι)

namespace TempConnections

variable {ι ρ η : Type*}

/-- The feeds and monitors that `removeReactor` or `stopNoLock` tells. -/
def affected [DecidableEq ρ] (s : TempConnections ι ρ η) : Option ρ → List η
  | some reactor => (s.tempConnections.filter fun c => c.1 = reactor).map Prod.snd
  | none => if s.isRunning then s.tempConnections.map Prod.snd else []

variable [DecidableEq ι] [DecidableEq ρ] [DecidableEq η]

def goesOn (s : TempConnections ι ρ η) (t : ι) (place : Place ρ η) : TempConnections ι ρ η :=
  { s with threads := Function.update s.threads t place }

def lock (s : TempConnections ι ρ η) (t : ι) (m : ConnectionMutex η) (place : Place ρ η) :
    Option (TempConnections ι ρ η) :=
  if s.owner m = none then
    some ({ s with owner := Function.update s.owner m (some t) }.goesOn t place)
  else none

def unlock (s : TempConnections ι ρ η) (t : ι) (m : ConnectionMutex η) (place : Place ρ η) :
    TempConnections ι ρ η :=
  { s with owner := Function.update s.owner m none }.goesOn t place

/-- `m_temp_connections.erase` of the connection of `h`. -/
def eraseConnection (s : TempConnections ι ρ η) (h : η) : TempConnections ι ρ η :=
  { s with tempConnections := s.tempConnections.eraseP fun c => c.2 = h }

def disconnect (s : TempConnections ι ρ η) (h : η) : TempConnections ι ρ η :=
  { s with connected := Function.update s.connected h false }

/-- The next step of a thread, unless it waits for a mutex. -/
def next (s : TempConnections ι ρ η) (t : ι) : Option (TempConnections ι ρ η) :=
  match s.threads t with
  | .idle => none
  | .engineLock reactor => s.lock t .engine (.removing reactor (s.affected reactor))
  | .removing reactor (h :: rest) => some (s.goesOn t (.handlerLock reactor h rest))
  -- `removeReactor` has erased each connection, and `stopNoLock` clears the list
  | .removing (some _) [] => some (s.unlock t .engine .idle)
  | .removing none [] =>
      if s.isRunning then
        some ({ s with tempConnections := [], isRunning := false }.unlock t .engine .idle)
      else some (s.unlock t .engine .idle)
  | .handlerLock reactor h rest => s.lock t (.handler h) (.handler reactor h rest)
  -- `reactorWasRemoved`, or `stop(false)`
  | .handler reactor h rest =>
      let told := (s.disconnect h).unlock t (.handler h) (.removing reactor rest)
      match reactor with
      | some _ => some (told.eraseConnection h)
      | none => some told
  | .ownLock call h => s.lock t (.handler h) (.own call h)
  | .own call h =>
      if s.connected h then
        match call with
        | .writeEvent full =>
            some (s.unlock t (.handler h) (if full then .ownLock .stop h else .idle))
        | _ => some (s.goesOn t (.unregisterLock call h))
      else some (s.unlock t (.handler h) .idle)
  | .unregisterLock call h => s.lock t .engine (.unregister call h)
  | .unregister call h => some ((s.eraseConnection h).unlock t .engine (.unregistered call h))
  | .unregistered .stop h => some ((s.disconnect h).unlock t (.handler h) .idle)
  | .unregistered _ h => some (s.unlock t (.handler h) .idle)

def step (s : TempConnections ι ρ η) : ConnectionEvent ι ρ η → Option (TempConnections ι ρ η)
  | .removeReactor t reactor =>
      match s.threads t with
      | .idle => some (s.goesOn t (.engineLock (some reactor)))
      | _ => none
  | .stopEngine t =>
      match s.threads t with
      | .idle => some (s.goesOn t (.engineLock none))
      | _ => none
  | .call t call h =>
      match s.threads t with
      | .idle => some (s.goesOn t (.ownLock call h))
      | _ => none
  | .next t => s.next t

/-! ### What a thread holds, and what it waits for -/

end TempConnections

namespace Place

variable {ρ η : Type*}

def holds : Place ρ η → ConnectionMutex η → Prop
  | idle, _ | engineLock _, _ | ownLock _ _, _ => False
  | removing _ _, m | handlerLock _ _ _, m => m = .engine
  | own _ h, m | unregisterLock _ h, m | unregistered _ h, m => m = .handler h
  | handler _ h _, m | unregister _ h, m => m = .engine ∨ m = .handler h

def waits : Place ρ η → Option (ConnectionMutex η)
  | engineLock _ | unregisterLock _ _ => some .engine
  | handlerLock _ h _ | ownLock _ h => some (.handler h)
  | _ => none

/-- The feed or monitor that a thread of the engine is telling, and whose mutex it needs. -/
def tells : Place ρ η → Option η
  | handlerLock _ h _ => some h
  | _ => none

/-- The feed or monitor with whose mutex a thread waits for the engine. -/
def unregisters : Place ρ η → Option η
  | unregisterLock _ h => some h
  | _ => none

lemma tells_of_waits {p : Place ρ η} {m : ConnectionMutex η} (hholds : p.holds .engine)
    (hwaits : p.waits = some m) : ∃ h, m = .handler h ∧ p.tells = some h := by
  cases p with
  | handlerLock reactor h rest => exact ⟨h, (Option.some.inj hwaits).symm, rfl⟩
  | unregisterLock call h => cases hholds
  | idle | engineLock | ownLock => cases hholds
  | removing | handler | own | unregister | unregistered => cases hwaits

lemma unregisters_of_waits {p : Place ρ η} {m : ConnectionMutex η} {h : η}
    (hholds : p.holds (.handler h)) (hwaits : p.waits = some m) :
    m = .engine ∧ p.unregisters = some h := by
  cases p with
  | unregisterLock call g =>
    obtain rfl : h = g := ConnectionMutex.handler.inj hholds
    exact ⟨(Option.some.inj hwaits).symm, rfl⟩
  | handlerLock reactor g rest => cases hholds
  | idle | engineLock | ownLock => cases hholds
  | removing | handler | own | unregister | unregistered => cases hwaits

lemma of_tells {p : Place ρ η} {h : η} (hp : p.tells = some h) :
    p.holds .engine ∧ p.waits = some (.handler h) := by
  cases p with
  | handlerLock reactor g rest =>
    obtain rfl := Option.some.inj hp
    exact ⟨rfl, rfl⟩
  | _ => cases hp

lemma of_unregisters {p : Place ρ η} {h : η} (hp : p.unregisters = some h) :
    p.holds (.handler h) ∧ p.waits = some .engine := by
  cases p with
  | unregisterLock call g =>
    obtain rfl := Option.some.inj hp
    exact ⟨rfl, rfl⟩
  | _ => cases hp

lemma unregisters_of_tells {p : Place ρ η} {h : η} (hp : p.tells = some h) :
    p.unregisters = none := by
  cases p with
  | handlerLock reactor g rest => rfl
  | _ => cases hp

end Place

namespace TempConnections

variable {ι ρ η : Type*}

/-- No thread of the engine is telling a feed or monitor with whose mutex a thread waits for the
engine. -/
def ThreadsApart (threads : ι → Place ρ η) : Prop :=
  ∀ t u h, (threads t).tells = some h → (threads u).unregisters ≠ some h

/-- The engine turns to a feed or monitor only when no thread waits for the engine with the mutex
of this one, and a thread with the mutex of a feed or monitor turns to the engine only when that is
not telling this one. -/
def Apart : ConnectionEvent ι ρ η → TempConnections ι ρ η → Prop
  | .next t, s =>
    match s.threads t with
    | .removing _ (h :: _) => ∀ u, (s.threads u).unregisters ≠ some h
    | .own .finish h | .own .stop h =>
      s.connected h = true → ∀ u, (s.threads u).tells ≠ some h
    | _ => True
  | _, _ => True

variable {s s' : TempConnections ι ρ η}

/-- Nothing else closes a cycle. -/
lemma not_deadlocked_iff (hown : Owned Place.holds s.threads s.owner) :
    (∀ S, ¬ Deadlocked Place.waits s.threads s.owner S) ↔ ThreadsApart s.threads := by
  constructor
  · intro hnone t u h ht hu
    obtain ⟨hengine, hwaits⟩ := Place.of_tells ht
    obtain ⟨hhandler, hwaits'⟩ := Place.of_unregisters hu
    have hne : t ≠ u := by
      rintro rfl
      rw [Place.unregisters_of_tells ht] at hu
      cases hu
    have howner := (hown _ u).2 hhandler
    have howner' := (hown _ t).2 hengine
    exact hnone _ (deadlocked_pair hne hwaits howner hwaits' howner')
  · intro hapart S hdead
    -- a thread that has the engine and waits tells a feed or monitor whose owner waits too
    have hengine : ∀ u ∈ S, ∀ m, (s.threads u).holds .engine → (s.threads u).waits ≠ some m := by
      intro u hu m hholds hwaits
      obtain ⟨h, rfl, htells⟩ := Place.tells_of_waits hholds hwaits
      obtain ⟨w, -, hw, m', hm'⟩ := hdead.next hown hu hwaits
      exact hapart u w h htells (Place.unregisters_of_waits hw hm').2
    obtain ⟨t, ht⟩ := hdead.1
    obtain ⟨m, -, hm, -⟩ := hdead.2 t ht
    obtain ⟨u, hu, hholds, m', hm'⟩ := hdead.next hown ht hm
    cases m with
    | engine => exact hengine u hu m' hholds hm'
    | handler h =>
      -- the owner of the mutex of a feed or monitor waits for the engine
      obtain ⟨rfl, -⟩ := Place.unregisters_of_waits hholds hm'
      obtain ⟨w, hw, hholds', m'', hm''⟩ := hdead.next hown hu hm'
      exact hengine w hw m'' hholds' hm''

section Steps

variable [DecidableEq ι]

/-- One thread goes on to another place. -/
lemma ThreadsApart.update_iff {threads : ι → Place ρ η} (h : ThreadsApart threads) {t : ι}
    {p : Place ρ η} : ThreadsApart (Function.update threads t p) ↔
      (∀ g, p.tells = some g → ∀ u ≠ t, (threads u).unregisters ≠ some g) ∧
        ∀ g, p.unregisters = some g → ∀ u ≠ t, (threads u).tells ≠ some g := by
  constructor
  · intro hall
    refine ⟨fun g hg u hu hug => ?_, fun g hg u hu hug => ?_⟩
    · exact hall t u g (by rwa [Function.update_self]) (by rwa [Function.update_of_ne hu])
    · exact hall u t g (by rwa [Function.update_of_ne hu]) (by rwa [Function.update_self])
  · rintro ⟨htells, hunreg⟩ a b g ha hb
    by_cases hat : a = t <;> by_cases hbt : b = t
    · subst hat
      subst hbt
      rw [Place.unregisters_of_tells ha] at hb
      cases hb
    · subst hat
      rw [Function.update_self] at ha
      rw [Function.update_of_ne hbt] at hb
      exact htells g ha b hbt hb
    · subst hbt
      rw [Function.update_of_ne hat] at ha
      rw [Function.update_self] at hb
      exact hunreg g hb a hat ha
    · rw [Function.update_of_ne hat] at ha
      rw [Function.update_of_ne hbt] at hb
      exact h a b g ha hb

lemma ThreadsApart.update {threads : ι → Place ρ η} (h : ThreadsApart threads) {t : ι}
    {p : Place ρ η} (htells : p.tells = none) (hunreg : p.unregisters = none) :
    ThreadsApart (Function.update threads t p) := by
  refine h.update_iff.2 ⟨fun g hg => ?_, fun g hg => ?_⟩
  · rw [htells] at hg
    cases hg
  · rw [hunreg] at hg
    cases hg

/-- A thread begins a call only when it is in none. -/
lemma goesOn_of_idle {t : ι} {p : Place ρ η}
    (h : (match s.threads t with
      | .idle => some (s.goesOn t p)
      | _ => none) = some s') : s.threads t = .idle ∧ s' = s.goesOn t p := by
  cases hplace : s.threads t <;> rw [hplace] at h <;> cases h
  exact ⟨rfl, rfl⟩

variable [DecidableEq ρ] [DecidableEq η]

/-- What a thread locks and unlocks, it holds from then on, or no more. -/
lemma owned_next (hown : Owned Place.holds s.threads s.owner) {t : ι} (hnext : s.next t = some s') :
    Owned Place.holds s'.threads s'.owner := by
  rw [next] at hnext
  cases hplace : s.threads t with
  | idle => rw [hplace] at hnext; cases hnext
  | engineLock reactor =>
    rw [hplace] at hnext
    obtain ⟨hfree, ⟨⟩⟩ := Option.ite_none_right_eq_some.1 hnext
    refine hown.lock hfree fun m => ?_
    rw [hplace]
    simp [Place.holds]
  | removing reactor rest =>
    rw [hplace] at hnext
    cases rest with
    | cons h rest =>
      obtain rfl := Option.some.inj hnext
      exact hown.move fun m => by rw [hplace]; rfl
    | nil =>
      have hunlock : Owned Place.holds (s.unlock t .engine .idle).threads
          (s.unlock t .engine .idle).owner := by
        refine hown.unlock (by rw [hplace]; rfl) fun m => ?_
        rw [hplace]
        simp [Place.holds]
      cases reactor with
      | some reactor =>
        obtain rfl := Option.some.inj hnext
        exact hunlock
      | none =>
        dsimp only at hnext
        split_ifs at hnext <;> obtain rfl := Option.some.inj hnext <;> exact hunlock
  | handlerLock reactor h rest =>
    rw [hplace] at hnext
    obtain ⟨hfree, ⟨⟩⟩ := Option.ite_none_right_eq_some.1 hnext
    refine hown.lock hfree fun m => ?_
    rw [hplace]
    exact or_comm
  | handler reactor h rest =>
    rw [hplace] at hnext
    have htold : Owned Place.holds (s.unlock t (.handler h) (.removing reactor rest)).threads
        (s.unlock t (.handler h) (.removing reactor rest)).owner := by
      refine hown.unlock (by rw [hplace]; exact Or.inr rfl) fun m => ?_
      rw [hplace]
      cases m <;> simp [Place.holds]
    cases reactor <;> obtain rfl := Option.some.inj hnext <;> exact htold
  | ownLock call h =>
    rw [hplace] at hnext
    obtain ⟨hfree, ⟨⟩⟩ := Option.ite_none_right_eq_some.1 hnext
    refine hown.lock hfree fun m => ?_
    rw [hplace]
    simp [Place.holds]
  | own call h =>
    rw [hplace] at hnext
    have hunlock : ∀ p : Place ρ η, (∀ m, ¬ p.holds m) →
        Owned Place.holds (s.unlock t (.handler h) p).threads
          (s.unlock t (.handler h) p).owner := by
      intro p hp
      refine hown.unlock (by rw [hplace]; rfl) fun m => ?_
      rw [hplace]
      exact iff_of_false (hp m) fun ⟨hne, heq⟩ => hne heq
    -- before its connection is removed, the handler keeps its own mutex
    have hmove : Owned Place.holds (s.goesOn t (.unregisterLock call h)).threads s.owner :=
      hown.move fun m => by rw [hplace]; rfl
    dsimp only at hnext
    split_ifs at hnext with hconn
    · cases call with
      | writeEvent full =>
        obtain rfl := Option.some.inj hnext
        cases full
        · exact hunlock .idle fun m hm => hm
        · exact hunlock (.ownLock .stop h) fun m hm => hm
      | finish | stop =>
        obtain rfl := Option.some.inj hnext
        exact hmove
    · obtain rfl := Option.some.inj hnext
      exact hunlock .idle fun m hm => hm
  | unregisterLock call h =>
    rw [hplace] at hnext
    obtain ⟨hfree, ⟨⟩⟩ := Option.ite_none_right_eq_some.1 hnext
    refine hown.lock hfree fun m => ?_
    rw [hplace]
    rfl
  | unregister call h =>
    rw [hplace] at hnext
    obtain rfl := Option.some.inj hnext
    refine hown.unlock (by rw [hplace]; exact Or.inl rfl) fun m => ?_
    rw [hplace]
    cases m <;> simp [Place.holds]
  | unregistered call h =>
    rw [hplace] at hnext
    have hunlock : Owned Place.holds (s.unlock t (.handler h) .idle).threads
        (s.unlock t (.handler h) .idle).owner := by
      refine hown.unlock (by rw [hplace]; rfl) fun m => ?_
      rw [hplace]
      exact iff_of_false (fun hm => hm) fun ⟨hne, heq⟩ => hne heq
    cases call <;> obtain rfl := Option.some.inj hnext <;> exact hunlock

/-- Two steps only can bring the engine and a feed or monitor to wait for each other. -/
lemma apart_next (hapart : ThreadsApart s.threads) {t : ι} (hnext : s.next t = some s') :
    ThreadsApart s'.threads ↔ Apart (.next t) s := by
  rw [next] at hnext
  simp only [Apart]
  -- the other steps bring the thread where it neither tells nor unregisters
  have hquiet : ∀ p : Place ρ η, p.tells = none → p.unregisters = none →
      s'.threads = Function.update s.threads t p → ThreadsApart s'.threads := by
    intro p htells hunreg heq
    rw [heq]
    exact hapart.update htells hunreg
  cases hplace : s.threads t with
  | idle => rw [hplace] at hnext; cases hnext
  | engineLock reactor =>
    rw [hplace] at hnext
    obtain ⟨-, ⟨⟩⟩ := Option.ite_none_right_eq_some.1 hnext
    exact iff_of_true (hquiet _ rfl rfl rfl) trivial
  | removing reactor rest =>
    rw [hplace] at hnext
    cases rest with
    | cons h rest =>
      obtain rfl := Option.some.inj hnext
      refine hapart.update_iff.trans ⟨fun hall u hu => ?_, fun hall => ⟨?_, ?_⟩⟩
      · by_cases hut : u = t
        · subst hut
          rw [hplace] at hu
          cases hu
        · exact hall.1 h rfl u hut hu
      · intro g hg u _
        obtain rfl : h = g := Option.some.inj hg
        exact hall u
      · intro g hg
        cases hg
    | nil =>
      cases reactor with
      | some reactor =>
        obtain rfl := Option.some.inj hnext
        exact iff_of_true (hquiet .idle rfl rfl rfl) trivial
      | none =>
        dsimp only at hnext
        split_ifs at hnext <;> obtain rfl := Option.some.inj hnext <;>
          exact iff_of_true (hquiet .idle rfl rfl rfl) trivial
  | handlerLock reactor h rest =>
    rw [hplace] at hnext
    obtain ⟨-, ⟨⟩⟩ := Option.ite_none_right_eq_some.1 hnext
    exact iff_of_true (hquiet _ rfl rfl rfl) trivial
  | handler reactor h rest =>
    rw [hplace] at hnext
    cases reactor <;> obtain rfl := Option.some.inj hnext <;>
      exact iff_of_true (hquiet _ rfl rfl rfl) trivial
  | ownLock call h =>
    rw [hplace] at hnext
    obtain ⟨-, ⟨⟩⟩ := Option.ite_none_right_eq_some.1 hnext
    exact iff_of_true (hquiet _ rfl rfl rfl) trivial
  | own call h =>
    rw [hplace] at hnext
    -- the thread turns to the engine
    have hwait : ThreadsApart (Function.update s.threads t (.unregisterLock call h)) ↔
        ∀ u, (s.threads u).tells ≠ some h := by
      refine hapart.update_iff.trans ⟨fun hall u hu => ?_, fun hall => ⟨?_, ?_⟩⟩
      · by_cases hut : u = t
        · subst hut
          rw [hplace] at hu
          cases hu
        · exact hall.2 h rfl u hut hu
      · intro g hg
        cases hg
      · intro g hg u _
        obtain rfl : h = g := Option.some.inj hg
        exact hall u
    dsimp only at hnext
    split_ifs at hnext with hconn
    · cases call with
      | writeEvent full =>
        obtain rfl := Option.some.inj hnext
        cases full
        · exact iff_of_true (hquiet .idle rfl rfl rfl) trivial
        · exact iff_of_true (hquiet (.ownLock .stop h) rfl rfl rfl) trivial
      | finish | stop =>
        obtain rfl := Option.some.inj hnext
        exact hwait.trans ⟨fun hall _ => hall, fun hall => hall hconn⟩
    · obtain rfl := Option.some.inj hnext
      have hquiet' := hquiet .idle rfl rfl rfl
      cases call with
      | writeEvent full => exact iff_of_true hquiet' trivial
      | finish | stop => exact iff_of_true hquiet' fun hc => absurd hc hconn
  | unregisterLock call h =>
    rw [hplace] at hnext
    obtain ⟨-, ⟨⟩⟩ := Option.ite_none_right_eq_some.1 hnext
    exact iff_of_true (hquiet _ rfl rfl rfl) trivial
  | unregister call h =>
    rw [hplace] at hnext
    obtain rfl := Option.some.inj hnext
    exact iff_of_true (hquiet _ rfl rfl rfl) trivial
  | unregistered call h =>
    rw [hplace] at hnext
    cases call <;> obtain rfl := Option.some.inj hnext <;>
      exact iff_of_true (hquiet .idle rfl rfl rfl) trivial

lemma owned_step (hown : Owned Place.holds s.threads s.owner) {e : ConnectionEvent ι ρ η}
    (hstep : s.step e = some s') : Owned Place.holds s'.threads s'.owner := by
  cases e with
  | next t => exact owned_next hown hstep
  | removeReactor t reactor | stopEngine t | call t call h =>
    obtain ⟨hidle, rfl⟩ := goesOn_of_idle hstep
    refine hown.move fun m => ?_
    rw [hidle]
    exact iff_of_false (fun h => h) fun h => h

lemma apart_step (hapart : ThreadsApart s.threads) {e : ConnectionEvent ι ρ η}
    (hstep : s.step e = some s') : ThreadsApart s'.threads ↔ Apart e s := by
  cases e with
  | next t => exact apart_next hapart hstep
  | removeReactor t reactor | stopEngine t | call t call h =>
    obtain ⟨-, rfl⟩ := goesOn_of_idle hstep
    exact iff_of_true (hapart.update rfl rfl) trivial

/-- No state of a run is deadlocked if and only if neither the engine turns to a feed or monitor,
nor that to the engine, while the other one waits for it. -/
theorem no_deadlock_iff {start : TempConnections ι ρ η} (hidle : ∀ t, start.threads t = .idle)
    (hfree : ∀ m, start.owner m = none) {es : List (ConnectionEvent ι ρ η)}
    (h : run TempConnections.step start es = some s) :
    (∀ u, ReachedIn TempConnections.step start es u →
        ∀ S, ¬ Deadlocked Place.waits u.threads u.owner S) ↔
      ∀ e u, HappensIn TempConnections.step start es e u → Apart e u := by
  have hown : Owned Place.holds start.threads start.owner := by
    intro m t
    rw [hfree m, hidle t]
    exact iff_of_false (by simp) fun h => h
  have hapart : ThreadsApart start.threads := by
    intro t u g hg
    rw [hidle t] at hg
    cases hg
  rw [← reached_iff (P := fun u : TempConnections ι ρ η =>
    Owned Place.holds u.threads u.owner ∧ ThreadsApart u.threads) ⟨hown, hapart⟩
    (fun u e u' hu he => ?_) h]
  · refine forall₂_congr fun u hu => ?_
    obtain ⟨before, after, -, hrun⟩ := hu
    have hownu := run_invariant (P := fun v : TempConnections ι ρ η =>
      Owned Place.holds v.threads v.owner) (fun v e v' hv he => owned_step hv he) hown hrun
    rw [not_deadlocked_iff hownu, and_iff_right hownu]
  · rw [and_iff_right (owned_step hu.1 he)]
    exact apart_step hu.2 he

/-- `FeedReader::start` ends and a monitor stops, one behind the other, and the engine tells the
monitor when the feed is gone. -/
theorem no_deadlock_iff_apart :
    let start : TempConnections ℕ ℕ ℕ := { tempConnections := [(0, 7), (0, 8)] }
    let events := [.call 1 .finish 7, .next 1, .next 1, .next 1, .removeReactor 0 0, .next 1,
      .next 0, .next 0, .next 0, .next 1]
    (run TempConnections.step start events).map
        (fun s => (s.owner .engine, s.owner (.handler 8), s.tempConnections)) =
      some (some 0, some 0, [(0, 8)]) ∧
      ((∀ u, ReachedIn TempConnections.step start events u →
          ∀ S, ¬ Deadlocked Place.waits u.threads u.owner S) ↔
        ∀ e u, HappensIn TempConnections.step start events e u → Apart e u) := by
  intro start events
  have hrun : (run TempConnections.step start events).map
      (fun s => (s.owner .engine, s.owner (.handler 8), s.tempConnections)) =
      some (some 0, some 0, [(0, 8)]) := by
    decide +kernel
  obtain ⟨s, hs, -⟩ := Option.map_eq_some_iff.1 hrun
  exact ⟨hrun, no_deadlock_iff (fun _ => rfl) (fun _ => rfl) hs⟩

/-- A feed ends while its reactor is removed. -/
theorem no_deadlock_iff_fails :
    let start : TempConnections ℕ ℕ ℕ := { tempConnections := [(0, 7)] }
    let events := [.call 1 .finish 7, .next 1, .removeReactor 0 0, .next 0, .next 0, .next 1]
    ∃ s, run TempConnections.step start events = some s ∧
      Deadlocked Place.waits s.threads s.owner {0, 1} := by
  intro start events
  have hrun : (run TempConnections.step start events).map (fun s =>
      ((s.threads 0).waits, s.owner (.handler 7), (s.threads 1).waits, s.owner .engine)) =
      some (some (.handler 7), some 1, some .engine, some 0) := by
    decide +kernel
  obtain ⟨s, hs, hview⟩ := Option.map_eq_some_iff.1 hrun
  simp only [Prod.mk.injEq] at hview
  obtain ⟨hwait, howner, hwait', howner'⟩ := hview
  exact ⟨s, hs, deadlocked_pair (by decide) hwait howner hwait' howner'⟩

end Steps

end TempConnections

end PionCore.Platform
