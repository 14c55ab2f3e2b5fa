/-
# The configuration lock of a reactor

`ConfigReadLock` and `ConfigWriteLock`: any number of readers, and one writer at a time, which may
take the lock again while it has it.  A step is one load, store, increment or decrement.  Each of
them gives up when it has slept fifty times.
-/
import PionCore.Lib.Runs
import PionCore.Lib.Threads

namespace PionCore.Platform

open PionCore.Lib

/-- Where a reader is in the constructor of its `ConfigReadLock`, or behind it. -/
inductive ReaderState where
  /-- there is no lock: it is released, or the constructor has thrown -/
  | out
  | waiting (sleepTimes : ℕ)
  /-- no change was pending, and the reader is not counted yet -/
  | entering (sleepTimes : ℕ)
  | checking (sleepTimes : ℕ)
  /-- a change is pending, and the reader is still counted -/
  | leaving (sleepTimes : ℕ)
  | inside
deriving DecidableEq

/-- The reader is counted. -/
def ReaderState.counted : ReaderState → Bool
  | checking _ | leaving _ | inside => true
  | out | waiting _ | entering _ => false

/-- Where the writer is in the constructor of a `ConfigWriteLock`. -/
inductive WriterState where
  | idle
  /-- in front of the load of `m_already_locked` -/
  | loading
  | setting
  | waiting (sleepTimes : ℕ)
  /-- the writer gives up -/
  | failing
deriving DecidableEq

/-- The writer has set the flag, and its lock is not constructed yet. -/
def WriterState.sets : WriterState → Bool
  | waiting _ | failing => true
  | idle | loading | setting => false

/-- The fields of the reactor, the readers, and the locks of the writer: `m_alreadyLocked` of those
that are constructed, from the inner to the outer ones. -/
structure ConfigLock (ι : Type*) where
  configChangePending : Bool := false
  configNumReaders : ℤ := 0
  readers : ι → ReaderState := fun _ => .out
  writer : WriterState := .idle
  locks : List Bool := []

inductive LockEvent (ι : Type*) where
  | constructRead (r : ι)
  /-- the next step of the constructor -/
  | reader (r : ι)
  | destroyRead (r : ι)
  | constructWrite
  | writer
  | destroyWrite

namespace ConfigLock

variable {ι : Type*}

/-- The number of times that a constructor sleeps. -/
def maxSleepTimes : ℕ := 50

section Steps

variable [DecidableEq ι]

def goesOn (s : ConfigLock ι) (r : ι) (state : ReaderState) : ConfigLock ι :=
  { s with readers := Function.update s.readers r state }

def readerStep (s : ConfigLock ι) (r : ι) : Option (ConfigLock ι) :=
  match s.readers r with
  | .out => none
  | .waiting sleepTimes =>
      if s.configChangePending then
        -- the constructor throws
        if maxSleepTimes < sleepTimes + 1 then some (s.goesOn r .out)
        else some (s.goesOn r (.waiting (sleepTimes + 1)))
      else some (s.goesOn r (.entering sleepTimes))
  | .entering sleepTimes =>
      some ({ s with configNumReaders := s.configNumReaders + 1 }.goesOn r (.checking sleepTimes))
  | .checking sleepTimes =>
      if s.configChangePending then some (s.goesOn r (.leaving sleepTimes))
      else some (s.goesOn r .inside)
  | .leaving sleepTimes =>
      some ({ s with configNumReaders := s.configNumReaders - 1 }.goesOn r (.waiting sleepTimes))
  | .inside => none

def writerStep (s : ConfigLock ι) : Option (ConfigLock ι) :=
  match s.writer with
  | .idle => none
  | .loading =>
      if s.configChangePending then some { s with writer := .idle, locks := true :: s.locks }
      else some { s with writer := .setting }
  | .setting => some { s with configChangePending := true, writer := .waiting 0 }
  | .waiting sleepTimes =>
      if 0 < s.configNumReaders then
        if maxSleepTimes < sleepTimes + 1 then some { s with writer := .failing }
        else some { s with writer := .waiting (sleepTimes + 1) }
      else some { s with writer := .idle, locks := false :: s.locks }
  -- the constructor throws
  | .failing => some { s with configChangePending := false, writer := .idle }

def step (s : ConfigLock ι) : LockEvent ι → Option (ConfigLock ι)
  | .constructRead r => if s.readers r = .out then some (s.goesOn r (.waiting 0)) else none
  | .reader r => s.readerStep r
  | .destroyRead r =>
      if s.readers r = .inside then
        some ({ s with configNumReaders := s.configNumReaders - 1 }.goesOn r .out)
      else none
  | .constructWrite => if s.writer = .idle then some { s with writer := .loading } else none
  | .writer => s.writerStep
  | .destroyWrite =>
      match s.writer, s.locks with
      | .idle, alreadyLocked :: locks =>
          some { s with
            configChangePending := if alreadyLocked then s.configChangePending else false
            locks := locks }
      | _, _ => none

end Steps

/-! ### The handshake -/

/-- The readers are counted, the flag is that of the writer, and while the writer has its lock, no
reader is inside. -/
structure Inv (s : ConfigLock ι) : Prop where
  count : ∃ n : ℕ, NumberOf ReaderState.counted s.readers n ∧ s.configNumReaders = n
  pending : s.configChangePending = true ↔ s.locks ≠ [] ∨ s.writer.sets = true
  /-- only the outer lock was not already locked -/
  nested : s.locks ≠ [] → ∃ k, s.locks = List.replicate k true ++ [false]
  idle : s.locks ≠ [] → s.writer = .idle ∨ s.writer = .loading
  excluded : s.locks ≠ [] → ∀ r, s.readers r ≠ .inside

/-- All locks are released, or have failed. -/
def AllOut (s : ConfigLock ι) : Prop :=
  (∀ r, s.readers r = .out) ∧ s.writer = .idle ∧ s.locks = []

variable {s : ConfigLock ι} {r : ι} {state : ReaderState}

lemma inv_start : ({} : ConfigLock ι).Inv where
  count := ⟨0, numberOf_zero fun _ => rfl, rfl⟩
  pending := by simp [WriterState.sets]
  nested h := absurd rfl h
  idle h := absurd rfl h
  excluded h := absurd rfl h

lemma Inv.allOut (h : s.Inv) (hout : s.AllOut) :
    s.configNumReaders = 0 ∧ s.configChangePending = false := by
  obtain ⟨hreaders, hwriter, hlocks⟩ := hout
  obtain ⟨n, hn, hcount⟩ := h.count
  constructor
  · rw [hcount, hn.eq_zero fun r => by rw [hreaders r]; rfl]
    rfl
  · rw [← Bool.not_eq_true, h.pending, hwriter, hlocks]
    simp [WriterState.sets]

variable [DecidableEq ι]

/-- A reader goes on; it comes inside only when no change is pending. -/
lemma Inv.goesOn (h : s.Inv) {k : ℤ}
    (hcount : k + (s.readers r).counted.toNat = s.configNumReaders + state.counted.toNat)
    (hinside : state = .inside → s.configChangePending = false) :
    ({ s with configNumReaders := k }.goesOn r state).Inv := by
  obtain ⟨n, hn, hnumber⟩ := h.count
  obtain ⟨m, hm, hupdate⟩ := hn.update r state
  refine ⟨⟨m, hm, ?_⟩, h.pending, h.nested, h.idle, fun hlocks d => ?_⟩
  · show k = m
    omega
  · show Function.update s.readers r state d ≠ .inside
    by_cases hd : d = r
    · subst hd
      rw [Function.update_self]
      intro heq
      have hpending := h.pending.2 (Or.inl hlocks)
      exact Bool.false_ne_true ((hinside heq).symm.trans hpending)
    · rw [Function.update_of_ne hd]
      exact h.excluded hlocks d

lemma Inv.readerStep (h : s.Inv) {s' : ConfigLock ι} (hstep : s.readerStep r = some s') :
    s'.Inv := by
  cases hreader : s.readers r with
  | out => simp [ConfigLock.readerStep, hreader] at hstep
  | waiting sleepTimes =>
    simp only [ConfigLock.readerStep, hreader] at hstep
    have hmove : ∀ state : ReaderState, state.counted = false → (s.goesOn r state).Inv := by
      intro state hstate
      refine h.goesOn (k := s.configNumReaders) ?_ ?_
      · rw [hreader, hstate]
        rfl
      · rintro rfl
        cases hstate
    split_ifs at hstep <;> obtain rfl := Option.some.inj hstep
    · exact hmove _ rfl
    · exact hmove _ rfl
    · exact hmove _ rfl
  | entering sleepTimes =>
    simp only [ConfigLock.readerStep, hreader, Option.some.injEq] at hstep
    subst hstep
    refine h.goesOn ?_ fun heq => by cases heq
    rw [hreader]
    simp [ReaderState.counted]
  | checking sleepTimes =>
    simp only [ConfigLock.readerStep, hreader] at hstep
    split_ifs at hstep with hpending <;> obtain rfl := Option.some.inj hstep
    · refine h.goesOn (k := s.configNumReaders) ?_ fun heq => by cases heq
      rw [hreader]
      rfl
    · -- the change is not pending, and the writer has no lock
      refine h.goesOn (k := s.configNumReaders) ?_ fun _ => Bool.not_eq_true _ ▸ hpending
      rw [hreader]
      rfl
  | leaving sleepTimes =>
    simp only [ConfigLock.readerStep, hreader, Option.some.injEq] at hstep
    subst hstep
    refine h.goesOn ?_ fun heq => by cases heq
    rw [hreader]
    simp [ReaderState.counted]
  | inside => simp [ConfigLock.readerStep, hreader] at hstep

omit [DecidableEq ι] in
lemma Inv.writerStep (h : s.Inv) {s' : ConfigLock ι} (hstep : s.writerStep = some s') :
    s'.Inv := by
  have hlocks : s.writer ≠ .idle → s.writer ≠ .loading → s.locks = [] := by
    intro hidle hloading
    by_contra hne
    rcases h.idle hne with heq | heq
    · exact hidle heq
    · exact hloading heq
  cases hwriter : s.writer with
  | idle => simp [ConfigLock.writerStep, hwriter] at hstep
  | loading =>
    simp only [ConfigLock.writerStep, hwriter] at hstep
    have hpending := h.pending
    rw [hwriter] at hpending
    split_ifs at hstep with hset <;> obtain rfl := Option.some.inj hstep
    · -- the writer has the lock already
      have hne : s.locks ≠ [] := by simpa [WriterState.sets] using hpending.1 hset
      obtain ⟨k, hk⟩ := h.nested hne
      refine ⟨h.count, by simpa using hset, fun _ => ⟨k + 1, ?_⟩, fun _ => Or.inl rfl,
        fun _ => h.excluded hne⟩
      rw [hk]
      rfl
    · have hempty : s.locks = [] := by
        by_contra hne
        exact hset (hpending.2 (Or.inl hne))
      refine ⟨h.count, ?_, h.nested, fun hne => absurd hempty hne, h.excluded⟩
      simp [hset, hempty, WriterState.sets]
  | setting =>
    simp only [ConfigLock.writerStep, hwriter, Option.some.injEq] at hstep
    subst hstep
    have hempty := hlocks (by simp [hwriter]) (by simp [hwriter])
    exact ⟨h.count, by simp [WriterState.sets], h.nested, fun hne => absurd hempty hne, h.excluded⟩
  | waiting sleepTimes =>
    simp only [ConfigLock.writerStep, hwriter] at hstep
    have hempty := hlocks (by simp [hwriter]) (by simp [hwriter])
    have hset : s.configChangePending = true := h.pending.2 (Or.inr (by rw [hwriter]; rfl))
    split_ifs at hstep with hreaders <;> obtain rfl := Option.some.inj hstep
    · exact ⟨h.count, by simpa [WriterState.sets] using hset, h.nested,
        fun hne => absurd hempty hne, h.excluded⟩
    · exact ⟨h.count, by simpa [WriterState.sets] using hset, h.nested,
        fun hne => absurd hempty hne, h.excluded⟩
    · -- no reader is counted, and those that come see the flag
      refine ⟨h.count, by simpa using hset, fun _ => ⟨0, ?_⟩, fun _ => Or.inl rfl, fun _ r hr => ?_⟩
      · rw [hempty]
        rfl
      · obtain ⟨n, hn, hcount⟩ := h.count
        have hpos : 0 < n := hn.pos (c := r) (by rw [hr]; rfl)
        omega
  | failing =>
    simp only [ConfigLock.writerStep, hwriter, Option.some.injEq] at hstep
    subst hstep
    have hempty := hlocks (by simp [hwriter]) (by simp [hwriter])
    exact ⟨h.count, by simp [hempty, WriterState.sets], h.nested, fun hne => absurd hempty hne,
      h.excluded⟩

lemma Inv.next (h : s.Inv) {e : LockEvent ι} {s' : ConfigLock ι} (hstep : step s e = some s') :
    s'.Inv := by
  cases e with
  | constructRead r =>
    obtain ⟨hreader, ⟨⟩⟩ := Option.ite_none_right_eq_some.1 hstep
    refine h.goesOn (k := s.configNumReaders) ?_ fun heq => by cases heq
    rw [hreader]
    rfl
  | reader r => exact h.readerStep hstep
  | destroyRead r =>
    obtain ⟨hreader, ⟨⟩⟩ := Option.ite_none_right_eq_some.1 hstep
    refine h.goesOn ?_ fun heq => by cases heq
    rw [hreader]
    simp [ReaderState.counted]
  | constructWrite =>
    obtain ⟨hwriter, ⟨⟩⟩ := Option.ite_none_right_eq_some.1 hstep
    refine ⟨h.count, ?_, h.nested, fun _ => Or.inr rfl, h.excluded⟩
    have hpending := h.pending
    rw [hwriter] at hpending
    exact hpending
  | writer => exact h.writerStep hstep
  | destroyWrite =>
    simp only [step] at hstep
    split at hstep
    · rename_i alreadyLocked locks hwriter hlocks
      obtain rfl := Option.some.inj hstep
      have hne : s.locks ≠ [] := by simp [hlocks]
      have hset := h.pending.2 (Or.inl hne)
      obtain ⟨k, hk⟩ := h.nested hne
      rw [hlocks] at hk
      cases k with
      | zero =>
        -- the outer lock is released
        obtain ⟨rfl, rfl⟩ := List.cons.inj hk
        exact ⟨h.count, by simp [hwriter, WriterState.sets], fun hnil => absurd rfl hnil,
          fun hnil => absurd rfl hnil, fun hnil => absurd rfl hnil⟩
      | succ k =>
        obtain ⟨rfl, rfl⟩ := List.cons.inj hk
        exact ⟨h.count, by simpa using hset, fun _ => ⟨k, rfl⟩, fun _ => h.idle hne,
          fun _ => h.excluded hne⟩
    · cases hstep

/-- While the writer has its lock, no reader is inside; and when all locks are released or have
failed, no reader is counted and no change is pending. -/
theorem config_lock {s : ConfigLock ι} {es : List (LockEvent ι)} (h : run step {} es = some s) :
    (∀ r, s.readers r = .inside → s.locks = []) ∧
      (s.AllOut → s.configNumReaders = 0 ∧ s.configChangePending = false) := by
  have hinv : s.Inv := run_invariant (fun u e u' hu hstep => hu.next hstep) inv_start h
  refine ⟨fun r hr => ?_, hinv.allOut⟩
  by_contra hlocks
  exact hinv.excluded hlocks r hr

/-- A reader comes between the flag and the count, and the writer waits until it is gone, takes the
lock twice, and releases it. -/
theorem config_lock_nested :
    let events := [.constructRead 0, .reader 0, .constructWrite, .writer, .reader 0, .writer,
      .writer, .reader 0, .reader 0, .writer, .constructWrite, .writer, .destroyWrite,
      .destroyWrite, .reader 0, .reader 0, .reader 0]
    (run step ({} : ConfigLock ℕ) events).map (fun s => (s.readers 0, s.configNumReaders)) =
        some (.inside, 1) ∧
      ∀ s : ConfigLock ℕ, run step {} events = some s →
        (∀ r, s.readers r = .inside → s.locks = []) ∧
          (s.AllOut → s.configNumReaders = 0 ∧ s.configChangePending = false) := by
  intro events
  exact ⟨by decide +kernel, fun s hs => config_lock hs⟩

end ConfigLock

end PionCore.Platform
