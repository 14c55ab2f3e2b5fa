/-
# Caches that are swept now and then

A cache whose entries bear the time of their last use.  Entries that were not used for the
time of expiration are removed by a sweep, and a sweep is only made when the last one is
longer ago than that: an entry can stay in the cache for almost twice the time.
-/
import Mathlib.Tactic.Common
import Mathlib.Tactic.Translate.GuessName

namespace PionCore.Lib

/-- The entries with the time of their last use, and the time of the last sweep. -/
structure SweptCache (κ ν : Type*) [Ord κ] where
  cleanupTime : ℕ
  entries : Std.TreeMap κ (ℕ × ν)

/-- A use of an entry. -/
structure Visit (κ : Type*) where
  key : κ
  time : ℕ
deriving DecidableEq

/-- The time of the last use of a key; the uses are listed with the last one first. -/
def lastVisit {κ : Type*} [DecidableEq κ] (k : κ) (log : List (Visit κ)) : Option ℕ :=
  (log.find? fun v => decide (v.key = k)).map Visit.time

lemma lastVisit_cons {κ : Type*} [DecidableEq κ] (v : Visit κ) (k : κ) (log : List (Visit κ)) :
    lastVisit k (v :: log) = if v.key = k then some v.time else lastVisit k log := by
  unfold lastVisit
  by_cases h : v.key = k <;> simp [h]

namespace SweptCache

variable {κ ν : Type*} [Ord κ]

/-- An empty cache. -/
def new (now : ℕ) : SweptCache κ ν := ⟨now, {}⟩

/-- Remove the entries that are expired, if the last sweep is so long ago. -/
def sweep (expiration now : ℕ) (c : SweptCache κ ν) : SweptCache κ ν :=
  if now > c.cleanupTime + expiration then
    ⟨now, c.entries.filter fun _ e => ! decide (now > e.1 + expiration)⟩
  else c

def find (c : SweptCache κ ν) (k : κ) : Option (ℕ × ν) := c.entries[k]?

/-- An entry is used. -/
def touch (c : SweptCache κ ν) (now : ℕ) (k : κ) : SweptCache κ ν :=
  { c with entries := c.entries.modify k fun e => (now, e.2) }

/-- An entry is added, unless there is one. -/
def add (c : SweptCache κ ν) (now : ℕ) (k : κ) (v : ν) : SweptCache κ ν :=
  { c with entries := c.entries.insertIfNew k (now, v) }

def drop (c : SweptCache κ ν) (k : κ) : SweptCache κ ν :=
  { c with entries := c.entries.erase k }

lemma compare_ne [Std.LawfulEqOrd κ] {k j : κ} (h : j ≠ k) : ¬ compare k j = .eq :=
  fun he => h (Std.LawfulEqCmp.eq_of_compare he).symm

variable [Std.TransOrd κ]

@[simp] lemma find_new (now : ℕ) (k : κ) : (new now : SweptCache κ ν).find k = none := by
  simp [new, find]

/-- The entries bear the time of their last use. -/
def Tracks [DecidableEq κ] (c : SweptCache κ ν) (log : List (Visit κ)) : Prop :=
  ∀ k e, c.find k = some e → lastVisit k log = some e.1

lemma tracks_new [DecidableEq κ] (now : ℕ) : (new now : SweptCache κ ν).Tracks [] := by
  intro k e h
  simp at h

variable [Std.LawfulEqOrd κ]

/-- What a sweep leaves was there before, and is not expired if there was a sweep. -/
lemma find_sweep {expiration now : ℕ} {c : SweptCache κ ν} {k : κ} {e : ℕ × ν} :
    (c.sweep expiration now).find k = some e ↔
      c.find k = some e ∧ (now ≤ c.cleanupTime + expiration ∨ now ≤ e.1 + expiration) := by
  rw [sweep, find]
  split_ifs with h
  · rw [Std.TreeMap.getElem?_filter']
    simp only [Option.filter_eq_some_iff, Bool.not_eq_true', decide_eq_false_iff_not]
    refine and_congr_right fun _ => ?_
    omega
  · exact ⟨fun he => ⟨he, Or.inl (by omega)⟩, And.left⟩

lemma find_touch [DecidableEq κ] (c : SweptCache κ ν) (now : ℕ) (k j : κ) :
    (c.touch now k).find j = if j = k then (c.find k).map fun e => (now, e.2) else c.find j := by
  unfold touch find
  by_cases h : j = k
  · subst h
    rw [if_pos rfl, Std.TreeMap.getElem?_modify_self]
  · rw [if_neg h, Std.TreeMap.getElem?_modify, if_neg (compare_ne h)]

lemma find_add [DecidableEq κ] (c : SweptCache κ ν) (now : ℕ) (k : κ) (v : ν) (j : κ) :
    (c.add now k v).find j = if j = k ∧ c.find k = none then some (now, v) else c.find j := by
  unfold add find
  rw [Std.TreeMap.getElem?_insertIfNew]
  by_cases h : j = k
  · subst h
    simp
  · rw [if_neg fun h' => compare_ne h h'.1, if_neg fun h' => h h'.1]

lemma find_drop [DecidableEq κ] (c : SweptCache κ ν) (k j : κ) :
    (c.drop k).find j = if j = k then none else c.find j := by
  unfold drop find
  by_cases h : j = k
  · subst h
    rw [if_pos rfl, Std.TreeMap.getElem?_erase_self]
  · rw [if_neg h, Std.TreeMap.getElem?_erase, if_neg (compare_ne h)]

/-- An entry that is expired is found where no sweep is due. -/
lemma expired_of_find_sweep {c : SweptCache κ ν} {expiration now : ℕ} {k : κ} {e : ℕ × ν}
    (h : (c.sweep expiration now).find k = some e) :
    now > e.1 + expiration ↔ now ≤ c.cleanupTime + expiration ∧ now > e.1 + expiration := by
  rcases (find_sweep.1 h).2 with h' | h'
  · exact ⟨fun hlt => ⟨h', hlt⟩, And.right⟩
  · exact ⟨fun hlt => absurd hlt (by omega), And.right⟩

/-! ### The time of the last use -/

variable [DecidableEq κ]

variable {c : SweptCache κ ν} {log : List (Visit κ)}

lemma tracks_sweep (hc : c.Tracks log) (expiration now : ℕ) :
    (c.sweep expiration now).Tracks log :=
  fun k e he => hc k e (find_sweep.1 he).1

lemma tracks_touch (hc : c.Tracks log) (now : ℕ) (k : κ) :
    (c.touch now k).Tracks (⟨k, now⟩ :: log) := by
  intro j e he
  rw [find_touch] at he
  rw [lastVisit_cons]
  by_cases h : j = k
  · rw [if_pos h] at he
    obtain ⟨e', -, rfl⟩ := Option.map_eq_some_iff.1 he
    rw [if_pos h.symm]
  · rw [if_neg h] at he
    rw [if_neg (Ne.symm h)]
    exact hc j e he

/-- An entry that is added was used when it was. -/
lemma tracks_add (hc : c.Tracks log) (now : ℕ) {k : κ} (hk : c.find k = none) (v : ν) :
    (c.add now k v).Tracks (⟨k, now⟩ :: log) := by
  intro j e he
  rw [find_add] at he
  rw [lastVisit_cons]
  by_cases h : j = k
  · rw [if_pos ⟨h, hk⟩] at he
    rw [if_pos h.symm, ← Option.some.inj he]
  · rw [if_neg fun h' => h h'.1] at he
    rw [if_neg (Ne.symm h)]
    exact hc j e he

/-- An entry that is there already is not changed. -/
lemma tracks_add_present (hc : c.Tracks log) (now : ℕ) {k : κ} (hk : c.find k ≠ none) (v : ν) :
    (c.add now k v).Tracks log := by
  intro j e he
  rw [find_add, if_neg fun h => hk h.2] at he
  exact hc j e he

lemma tracks_drop (hc : c.Tracks log) (k : κ) : (c.drop k).Tracks log := by
  intro j e he
  rw [find_drop] at he
  split_ifs at he
  exact hc j e he

end SweptCache

end PionCore.Lib
