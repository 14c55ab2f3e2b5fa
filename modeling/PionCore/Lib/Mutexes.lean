/-
# Mutexes

A mutex has one owner at most.  A thread that is at a place where it holds a mutex is its owner,
and a thread waits at the places in front of a mutex.  Threads are deadlocked if each of them waits
for a mutex that another one of them owns.
-/
import Mathlib.Data.Set.Insert
import Mathlib.Logic.Function.Basic

namespace PionCore.Lib

variable {ι σ μ : Type*}

/-- The owner of a mutex is the thread that is at a place where the mutex is held. -/
def Owned (holds : σ → μ → Prop) (threads : ι → σ) (owner : μ → Option ι) : Prop :=
  ∀ m t, owner m = some t ↔ holds (threads t) m

/-- Threads each of which waits for a mutex of another one. -/
def Deadlocked (waits : σ → Option μ) (threads : ι → σ) (owner : μ → Option ι) (S : Set ι) :
    Prop :=
  S.Nonempty ∧ ∀ t ∈ S, ∃ m u,
    waits (threads t) = some m ∧ owner m = some u ∧ u ∈ S ∧ u ≠ t

variable {holds : σ → μ → Prop} {waits : σ → Option μ} {threads : ι → σ} {owner : μ → Option ι}
  {S : Set ι} {t u : ι} {s : σ} {m : μ}

/-- The owner of what a deadlocked thread waits for holds it, and waits for something else. -/
lemma Deadlocked.next (h : Deadlocked waits threads owner S) (hown : Owned holds threads owner)
    (ht : t ∈ S) (hm : waits (threads t) = some m) :
    ∃ u ∈ S, holds (threads u) m ∧ ∃ m', waits (threads u) = some m' := by
  obtain ⟨m', u, hm', hu, huS, -⟩ := h.2 t ht
  obtain rfl : m = m' := Option.some.inj (hm.symm.trans hm')
  obtain ⟨m'', -, hm'', -⟩ := h.2 u huS
  exact ⟨u, huS, (hown m u).1 hu, m'', hm''⟩

lemma Owned.eq (h : Owned holds threads owner) (ht : holds (threads t) m)
    (hu : holds (threads u) m) : t = u :=
  Option.some.inj (((h m t).2 ht).symm.trans ((h m u).2 hu))

/-- Two threads that wait for each other. -/
lemma deadlocked_pair {m' : μ} (hne : t ≠ u) (ht : waits (threads t) = some m)
    (hu : owner m = some u) (hu' : waits (threads u) = some m') (ht' : owner m' = some t) :
    Deadlocked waits threads owner {t, u} := by
  refine ⟨⟨t, Set.mem_insert t _⟩, fun v hv => ?_⟩
  rcases hv with rfl | hv
  · exact ⟨m, u, ht, hu, Set.mem_insert_of_mem _ (Set.mem_singleton u), hne.symm⟩
  · obtain rfl : v = u := hv
    exact ⟨m', t, hu', ht', Set.mem_insert t _, hne⟩

lemma Owned.free (h : Owned holds threads owner) (hm : owner m = none) : ¬ holds (threads t) m := by
  intro ht
  rw [(h m t).2 ht] at hm
  cases hm

variable [DecidableEq ι]

/-- A thread goes on, and holds what it held. -/
lemma Owned.move (h : Owned holds threads owner)
    (hs : ∀ m, holds s m ↔ holds (threads t) m) :
    Owned holds (Function.update threads t s) owner := by
  intro m u
  by_cases hu : u = t
  · subst hu
    rw [Function.update_self, hs m, h m u]
  · rw [Function.update_of_ne hu, h m u]

variable [DecidableEq μ]

/-- A thread locks a mutex that is free. -/
lemma Owned.lock (h : Owned holds threads owner) (hfree : owner m = none)
    (hs : ∀ m', holds s m' ↔ m' = m ∨ holds (threads t) m') :
    Owned holds (Function.update threads t s) (Function.update owner m (some t)) := by
  intro m' u
  by_cases hm : m' = m
  · subst hm
    rw [Function.update_self, Option.some.injEq]
    by_cases hu : u = t
    · subst hu
      rw [Function.update_self, hs]
      simp
    · rw [Function.update_of_ne hu]
      exact iff_of_false (Ne.symm hu) (h.free hfree)
  · rw [Function.update_of_ne hm, h m' u]
    by_cases hu : u = t
    · subst hu
      rw [Function.update_self, hs, or_iff_right hm]
    · rw [Function.update_of_ne hu]

/-- A thread unlocks a mutex that it holds. -/
lemma Owned.unlock (h : Owned holds threads owner) (ht : holds (threads t) m)
    (hs : ∀ m', holds s m' ↔ m' ≠ m ∧ holds (threads t) m') :
    Owned holds (Function.update threads t s) (Function.update owner m none) := by
  intro m' u
  by_cases hm : m' = m
  · subst hm
    rw [Function.update_self]
    refine iff_of_false (by simp) fun hu => ?_
    by_cases hut : u = t
    · subst hut
      rw [Function.update_self, hs] at hu
      exact hu.1 rfl
    · rw [Function.update_of_ne hut] at hu
      exact hut (h.eq hu ht)
  · rw [Function.update_of_ne hm, h m' u]
    by_cases hu : u = t
    · subst hu
      rw [Function.update_self, hs, and_iff_right hm]
    · rw [Function.update_of_ne hu]

end PionCore.Lib
