/-
# Timeouts of reads

`HTTPReader::readBytesWithTimeout` starts a `TCPTimer` with each read, and the timer is cancelled
when bytes or an error have come.  The handler of a timer may be called long after that.  Whenever
the timers expire and their handlers are called, a connection is closed only while a read waits for
bytes, and by no timer but that of this read; and each read that waits can be closed by its timer
(`timeouts`).
-/
import PionCore.Net.HTTPServer

namespace PionCore.Net

open PionCore.Lib

/-! ### Timers -/

/-- `TCPTimer`.  The deadline timer has a wait whose time is not over yet, or whose handler is about
to be called. -/
structure TCPTimer where
  timerActive : Bool := false
  wasCancelled : Bool := false
  waits : Bool := false
  handlerQueued : Bool := false
deriving DecidableEq

namespace TCPTimer

/-- `start` -/
def start (t : TCPTimer) : TCPTimer := { t with timerActive := true, waits := true }

/-- `cancel`; the handler of a wait that is cancelled is called, too. -/
def cancel (t : TCPTimer) : TCPTimer :=
  let t := { t with wasCancelled := true }
  if t.timerActive then { t with waits := false, handlerQueued := t.waits || t.handlerQueued }
  else t

/-- The time is over. -/
def expire (t : TCPTimer) : Option TCPTimer :=
  if t.waits then some { t with waits := false, handlerQueued := true } else none

/-- `timerCallback`, and whether it closes the connection. -/
def timerCallback (t : TCPTimer) : Option (TCPTimer × Bool) :=
  if t.handlerQueued then some ({ t with timerActive := false, handlerQueued := false },
    ! t.wasCancelled)
  else none

end TCPTimer

/-! ### Reads with timers -/

/-- A connection of a server, with all timers that were made for it.  `current` is `m_timer_ptr` of
its reader. -/
structure Timed where
  served : Served
  timers : List TCPTimer := []
  current : Option ℕ := none

inductive TimedEvent where
  | connection (e : ConnectionEvent)
  /-- the time of a timer is over -/
  | expire (i : ℕ)
  /-- the handler of a timer is called -/
  | timerCallback (i : ℕ)

namespace Timed

variable {ι : Type*} (server : HTTPServer ι) (readTimeout : ℕ)

/-- The first part of `consumeBytes` behind a read. -/
def cancelTimer (s : Timed) : Timed :=
  match s.current with
  | none => s
  | some i => { s with timers := s.timers.modify i TCPTimer.cancel, current := none }

/-- The reader waits for bytes, with `readBytesWithTimeout`, or it has finished. -/
def goOn (s : Timed) (served : Served) : Timed :=
  match served.task with
  | .reading _ =>
      if readTimeout > 0 then
        { served := served, timers := s.timers ++ [TCPTimer.start {}]
          current := some s.timers.length }
      else { s with served := served, current := none }
  | .answering | .finished | .deadlocked => { s with served := served }

/-- A connection that was accepted. -/
def accepted : Timed := goOn readTimeout { served := {} } server.accepted

def step (s : Timed) : TimedEvent → Option Timed
  | .connection e => (server.step s.served e).map fun served =>
      match e with
      | .read _ | .readError => s.cancelTimer.goOn readTimeout served
      | .finish => s.goOn readTimeout served
      | .close | .setListening _ => { s with served := served }
  | .expire i => s.timers[i]?.bind fun t => t.expire.map fun t =>
      { s with timers := s.timers.set i t }
  | .timerCallback i => s.timers[i]?.bind fun t => t.timerCallback.map fun x =>
      let s := { s with timers := s.timers.set i x.1 }
      if x.2 then
        { s with served := { s.served with conn := { s.served.conn with isOpen := false } } }
      else s

/-! ### Which timers are left -/

/-- A read waits for bytes. -/
def Reading (s : Timed) : Prop := ∃ r, s.served.task = .reading r

/-- The timer will close the connection, or has done so. -/
def Watches (s : Timed) (t : TCPTimer) : Prop :=
  t.waits = true ∨ t.handlerQueued = true ∨ s.served.conn.isOpen = false

/-- All timers but that of the read that waits are cancelled, and that one watches the read. -/
structure Sound (s : Timed) : Prop where
  others : ∀ (i : ℕ) (t : TCPTimer), s.timers[i]? = some t → t.wasCancelled = false →
    s.current = some i ∧ s.Reading
  idle : ¬ s.Reading → s.current = none
  watched : readTimeout > 0 → s.Reading → ∃ i t, s.current = some i ∧ s.timers[i]? = some t ∧
    t.wasCancelled = false ∧ s.Watches t

variable {server readTimeout} {s s' : Timed}

/-- Behind a read that is over, all timers are cancelled. -/
lemma cancelled_cancelTimer (hs : s.Sound readTimeout) :
    s.cancelTimer.current = none ∧
      ∀ (i : ℕ) (t : TCPTimer), s.cancelTimer.timers[i]? = some t → t.wasCancelled = true := by
  rw [cancelTimer]
  cases hcurrent : s.current with
  | none =>
    refine ⟨hcurrent, fun i t ht => ?_⟩
    by_contra hnot
    have h := (hs.others i t ht (by simpa using hnot)).1
    rw [hcurrent] at h
    cases h
  | some i =>
    refine ⟨rfl, fun j t ht => ?_⟩
    dsimp only at ht
    rw [List.getElem?_modify] at ht
    obtain ⟨t', ht', rfl⟩ := Option.map_eq_some_iff.1 ht
    split_ifs with hij
    · rw [TCPTimer.cancel]
      split_ifs <;> rfl
    · by_contra hnot
      have h := (hs.others j t' ht' (by simpa [hij] using hnot)).1
      rw [hcurrent] at h
      exact hij (Option.some.inj h)

/-- A reader goes on when no timer is left. -/
lemma sound_goOn (hnone : s.current = none)
    (hcancelled : ∀ (i : ℕ) (t : TCPTimer), s.timers[i]? = some t → t.wasCancelled = true)
    (served : Served) : (s.goOn readTimeout served).Sound readTimeout := by
  have hold : ∀ (i : ℕ) (t : TCPTimer), s.timers[i]? = some t → t.wasCancelled = false → False := by
    intro i t ht hfalse
    rw [hcancelled i t ht] at hfalse
    cases hfalse
  rw [goOn]
  cases htask : served.task with
  | reading r =>
    dsimp only
    split_ifs with hpos
    · refine ⟨fun i t ht hfalse => ?_, fun hnot => absurd ⟨r, htask⟩ hnot, fun _ _ => ?_⟩
      · dsimp only at ht
        rw [List.getElem?_append] at ht
        split_ifs at ht with hi
        · exact (hold i t ht hfalse).elim
        · have hlength := (List.getElem?_eq_some_iff.1 ht).1
          rw [List.length_singleton] at hlength
          obtain rfl : i = s.timers.length := by omega
          exact ⟨rfl, r, htask⟩
      · exact ⟨s.timers.length, TCPTimer.start {}, rfl, by simp, rfl, Or.inl rfl⟩
    · exact ⟨fun i t ht hfalse => (hold i t ht hfalse).elim, fun _ => rfl,
        fun hpos' => absurd hpos' hpos⟩
  | answering | finished | deadlocked =>
    refine ⟨fun i t ht hfalse => (hold i t ht hfalse).elim, fun _ => hnone, fun _ hread => ?_⟩
    obtain ⟨r, hr⟩ := hread
    dsimp only at hr
    rw [htask] at hr
    cases hr

/-- Timers that change, but are cancelled as before, and still watch the read. -/
lemma Sound.set (hs : s.Sound readTimeout) (served : Served) {i : ℕ} {t t' : TCPTimer}
    (htask : served.task = s.served.task)
    (hopen : s.served.conn.isOpen = false → served.conn.isOpen = false)
    (hti : s.timers[i]? = some t) (hsame : t'.wasCancelled = t.wasCancelled)
    (hwatches : t.wasCancelled = false → s.Watches t →
      ({ s with served := served, timers := s.timers.set i t' } : Timed).Watches t') :
    Sound readTimeout { s with served := served, timers := s.timers.set i t' } := by
  have hreading : ({ s with served := served, timers := s.timers.set i t' } : Timed).Reading ↔
      s.Reading := by
    simp only [Reading, htask]
  have hi := (List.getElem?_eq_some_iff.1 hti).1
  refine ⟨fun j u hu hfalse => ?_, fun hnot => hs.idle (hreading.not.1 hnot), fun hpos hread => ?_⟩
  · rw [hreading]
    dsimp only at hu
    rw [List.getElem?_set] at hu
    split_ifs at hu with hij
    · subst hij
      obtain rfl := Option.some.inj hu
      exact hs.others i t hti (hsame ▸ hfalse)
    · exact hs.others j u hu hfalse
  · obtain ⟨j, u, hcurrent, hu, hfalse, hw⟩ := hs.watched hpos (hreading.1 hread)
    by_cases hij : i = j
    · subst hij
      obtain rfl : t = u := Option.some.inj (hti.symm.trans hu)
      exact ⟨i, t', hcurrent, by simp [hi], hsame.trans hfalse, hwatches hfalse hw⟩
    · refine ⟨j, u, hcurrent, ?_, hfalse, hw.imp_right (Or.imp_right hopen)⟩
      dsimp only
      rw [List.getElem?_set_ne hij, hu]

/-- Every step keeps the timers as they should be. -/
lemma Sound.step (hs : s.Sound readTimeout) {e : TimedEvent}
    (h : s.step server readTimeout e = some s') : s'.Sound readTimeout := by
  cases e with
  | connection e =>
    obtain ⟨served, hserved, rfl⟩ := Option.map_eq_some_iff.1 h
    -- bytes, an error, the end of an answer, `close` and `setListening`
    rcases server.step_cases hserved with ⟨w, r, rfl, -⟩ | ⟨r, rfl, -⟩ | ⟨rfl, htask, -⟩ |
      ⟨rfl, rfl⟩ | ⟨b, rfl, rfl⟩
    · obtain ⟨hnone, hcancelled⟩ := cancelled_cancelTimer hs
      exact sound_goOn hnone hcancelled served
    · obtain ⟨hnone, hcancelled⟩ := cancelled_cancelTimer hs
      exact sound_goOn hnone hcancelled served
    · -- no read waits, so that no timer is left
      have hidle : ¬ s.Reading := by
        rintro ⟨r, hr⟩
        rw [htask] at hr
        cases hr
      refine sound_goOn (hs.idle hidle) (fun i t ht => ?_) served
      by_contra hnot
      exact hidle (hs.others i t ht (by simpa using hnot)).2
    · refine ⟨hs.others, hs.idle, fun hpos hread => ?_⟩
      obtain ⟨i, t, hcurrent, ht, hfalse, -⟩ := hs.watched hpos hread
      exact ⟨i, t, hcurrent, ht, hfalse, Or.inr (Or.inr rfl)⟩
    · exact ⟨hs.others, hs.idle, hs.watched⟩
  | expire i =>
    obtain ⟨t, ht, hrest⟩ := Option.bind_eq_some_iff.1 h
    obtain ⟨t', ht', rfl⟩ := Option.map_eq_some_iff.1 hrest
    rw [TCPTimer.expire] at ht'
    split_ifs at ht' with hwaits
    obtain rfl := Option.some.inj ht'
    exact hs.set s.served rfl id ht rfl fun _ _ => Or.inr (Or.inl rfl)
  | timerCallback i =>
    obtain ⟨t, ht, hrest⟩ := Option.bind_eq_some_iff.1 h
    obtain ⟨x, hx, rfl⟩ := Option.map_eq_some_iff.1 hrest
    rw [TCPTimer.timerCallback] at hx
    split_ifs at hx with hqueued
    obtain rfl := Option.some.inj hx
    dsimp only
    split_ifs with hcloses
    · exact hs.set _ rfl (fun _ => rfl) ht rfl fun _ _ => Or.inr (Or.inr rfl)
    · exact hs.set s.served rfl id ht rfl fun hfalse _ => by simp [hfalse] at hcloses

lemma Sound.of_run {events : List TimedEvent}
    (h : run (Timed.step server readTimeout) (accepted server readTimeout) events = some s) :
    s.Sound readTimeout :=
  run_invariant (P := Sound readTimeout) (fun _ _ _ ht hstep => ht.step hstep)
    (sound_goOn (s := { served := {} }) rfl (by simp) server.accepted) h

/-- A connection is closed by a timer only while a read waits for bytes, and by the timer of this
read; and while a read waits its timer can close the connection, if the reader has a timeout. -/
theorem timeouts (events : List TimedEvent)
    (h : run (Timed.step server readTimeout) (accepted server readTimeout) events = some s) :
    (∀ i s', s.step server readTimeout (.timerCallback i) = some s' →
      s.served.conn.isOpen = true → s'.served.conn.isOpen = false →
        s.current = some i ∧ s.Reading) ∧
    (readTimeout > 0 → s.Reading → s.served.conn.isOpen = true → ∃ i, s.current = some i ∧
      ∃ before s', before ⊆ [.expire i] ∧
        run (Timed.step server readTimeout) s (before ++ [.timerCallback i]) = some s' ∧
        s'.served.conn.isOpen = false ∧ s'.Reading) := by
  have hs := Sound.of_run h
  refine ⟨fun i s' hstep hopen hclosed => ?_, fun hpos hread hopen => ?_⟩
  · obtain ⟨t, ht, hrest⟩ := Option.bind_eq_some_iff.1 hstep
    obtain ⟨x, hx, rfl⟩ := Option.map_eq_some_iff.1 hrest
    rw [TCPTimer.timerCallback] at hx
    split_ifs at hx
    obtain rfl := Option.some.inj hx
    dsimp only at hclosed
    split_ifs at hclosed with hcloses
    · exact hs.others i t ht (by simpa using hcloses)
    · rw [hopen] at hclosed
      cases hclosed
  · obtain ⟨i, t, hcurrent, ht, hfalse, hw⟩ := hs.watched hpos hread
    have hi := (List.getElem?_eq_some_iff.1 ht).1
    -- the handler is called when the time is over
    have hcall : ∀ (u : Timed) (t' : TCPTimer), u.timers[i]? = some t' → t'.handlerQueued = true →
        t'.wasCancelled = false → u.served.task = s.served.task → ∃ u',
          u.step server readTimeout (.timerCallback i) = some u' ∧
            u'.served.conn.isOpen = false ∧ u'.Reading := by
      intro u t' ht' hqueued hfalse' htask
      obtain ⟨r, hr⟩ := hread
      refine ⟨{ u with
        served := { u.served with conn := { u.served.conn with isOpen := false } }
        timers := u.timers.set i { t' with timerActive := false, handlerQueued := false } }, ?_,
        rfl, r, htask.trans hr⟩
      simp only [Timed.step, ht', TCPTimer.timerCallback, hqueued, if_true, Option.bind_some,
        Option.map_some, hfalse', Bool.not_false]
    rcases hw with hwaits | hqueued | hclosed
    · let t' : TCPTimer := { t with waits := false, handlerQueued := true }
      let u : Timed := { s with timers := s.timers.set i t' }
      have hexpire : s.step server readTimeout (.expire i) = some u := by
        simp only [Timed.step, ht, TCPTimer.expire, hwaits, if_true, Option.bind_some,
          Option.map_some]
        rfl
      have hu : u.timers[i]? = some t' := List.getElem?_set_self hi
      obtain ⟨u', hu', hclosed, hreading⟩ := hcall u t' hu rfl hfalse rfl
      exact ⟨i, hcurrent, [.expire i], u', List.Subset.refl _,
        (run_snoc _).2 ⟨u, by rw [run_cons, hexpire]; rfl, hu'⟩, hclosed, hreading⟩
    · obtain ⟨u', hu', hclosed, hreading⟩ := hcall s t ht hqueued hfalse rfl
      exact ⟨i, hcurrent, [], u', List.nil_subset _, by rw [List.nil_append, run_cons, hu']; rfl,
        hclosed, hreading⟩
    · rw [hopen] at hclosed
      cases hclosed

/-- The time of a first read is over before its bytes come, but the handler of its timer is called
behind them. -/
theorem timeouts_late :
    let server : HTTPServer Unit := {}
    let events := [.expire 0, .connection (.read (ascii "GET / HT")), .timerCallback 0]
    let s := (run (Timed.step server 10) (accepted server 10) events).getD (accepted server 10)
    s.served.conn.isOpen = true ∧ ∀ i s', s.step server 10 (.timerCallback i) = some s' →
      s.served.conn.isOpen = true → s'.served.conn.isOpen = false → s.current = some i ∧
        s.Reading := by
  intro server events s
  have hsome : (run (Timed.step server 10) (accepted server 10) events).isSome = true := by
    decide +kernel
  obtain ⟨t, ht⟩ := Option.isSome_iff_exists.1 hsome
  have hrun : run (Timed.step server 10) (accepted server 10) events = some s := by
    simp only [s, ht, Option.getD_some]
  exact ⟨by decide +kernel, (timeouts events hrun).1⟩

end Timed

end PionCore.Net
