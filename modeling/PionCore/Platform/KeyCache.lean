/-
# The keys that are known to a database inserter

`DatabaseInserter::insert` remembers the keys of the events, each with the newest time that was
known when the key was seen last, and `insertEvents` erases the old ones after each transaction.
The cut-off is a difference of 32-bit numbers, which is no time at all as long as the newest time
is less than the age.
-/
import Mathlib.Algebra.Group.Nat.Defs
import Mathlib.Data.List.Nodup

namespace PionCore.Platform

/-- `m_keys`, `m_last_time` and `m_max_age`, which is not zero if there is a cache. -/
structure KeyCache (κ : Type*) where
  keys : List (κ × UInt32) := []
  nodup : (keys.map Prod.fst).Nodup := by exact List.nodup_nil
  lastTime : UInt32 := 0
  maxAge : UInt32

namespace KeyCache

variable {κ : Type*}

/-! ### The sections of the inserter -/

/-- The newest time, after an event with this time if it has one. -/
def newest (c : KeyCache κ) : Option UInt32 → UInt32
  | some time => if time > c.lastTime then time else c.lastTime
  | none => c.lastTime

/-- The time of a key that is there already. -/
def setTime [DecidableEq κ] (keys : List (κ × UInt32)) (key : κ) (time : UInt32) :
    List (κ × UInt32) :=
  keys.map fun entry => if entry.1 = key then (key, time) else entry

lemma fst_setTime [DecidableEq κ] (keys : List (κ × UInt32)) (key : κ) (time : UInt32) :
    (setTime keys key time).map Prod.fst = keys.map Prod.fst := by
  rw [setTime, List.map_map]
  refine List.map_congr_left fun entry _ => ?_
  simp only [Function.comp_apply]
  split_ifs with h
  · exact h.symm
  · rfl

/-- The section of `insert`, for an event with this key and this time: whether the event goes on to
the queue. -/
def insert [DecidableEq κ] (c : KeyCache κ) (key : Option κ) (timestamp : Option UInt32) :
    KeyCache κ × Bool :=
  match key with
  | none => (c, false)
  | some key =>
    if h : key ∈ c.keys.map Prod.fst then
      ({ c with
          keys := setTime c.keys key (c.newest timestamp)
          nodup := by rw [fst_setTime]; exact c.nodup
          lastTime := c.newest timestamp }, false)
    else
      ({ c with
          keys := (key, c.newest timestamp) :: c.keys
          nodup := List.nodup_cons.2 ⟨h, c.nodup⟩
          lastTime := c.newest timestamp }, true)

/-- The cut-off. -/
def minAge (c : KeyCache κ) : UInt32 := c.lastTime - c.maxAge

/-- The pruning pass of `insertEvents`. -/
def prune (c : KeyCache κ) : KeyCache κ :=
  { c with
    keys := c.keys.filter fun entry => ¬ entry.2 < c.minAge
    nodup := c.nodup.sublist ((List.filter_sublist).map Prod.fst) }

/-- The worker stops, or has lost events. -/
def clear (c : KeyCache κ) : KeyCache κ := { c with keys := [], nodup := List.nodup_nil }

/-! ### What a pruning pass leaves -/

variable {c : KeyCache κ}

lemma le_newest (c : KeyCache κ) (timestamp : Option UInt32) :
    c.lastTime ≤ c.newest timestamp := by
  cases timestamp with
  | none => exact UInt32.le_refl _
  | some time =>
    rw [newest]
    split_ifs with h
    · exact UInt32.le_of_lt h
    · exact UInt32.le_refl _

/-- The time is more than the maximum age before the newest one. -/
def IsOld (c : KeyCache κ) (time : UInt32) : Prop :=
  time.toNat + c.maxAge.toNat < c.lastTime.toNat

instance (c : KeyCache κ) (time : UInt32) : Decidable (c.IsOld time) :=
  inferInstanceAs (Decidable (_ < _))

lemma mem_keys_prune {entry : κ × UInt32} :
    entry ∈ c.prune.keys ↔ entry ∈ c.keys ∧ ¬ entry.2 < c.minAge := by
  rw [prune, List.mem_filter, decide_eq_true_iff]

/-- The difference is the right cut-off, or one that is newer than the newest time. -/
lemma toNat_minAge (c : KeyCache κ) :
    c.minAge.toNat = if c.maxAge ≤ c.lastTime then c.lastTime.toNat - c.maxAge.toNat
      else c.lastTime.toNat + 2 ^ 32 - c.maxAge.toNat := by
  have hage := c.maxAge.toNat_lt
  have htime := c.lastTime.toNat_lt
  rw [minAge, UInt32.toNat_sub]
  split_ifs with h
  · have hle := UInt32.le_iff_toNat_le.1 h
    omega
  · have hlt : c.lastTime.toNat < c.maxAge.toNat := by
      by_contra hnot
      exact h (UInt32.le_iff_toNat_le.2 (by omega))
    omega

lemma lt_minAge_iff (h : c.maxAge ≤ c.lastTime) (time : UInt32) :
    time < c.minAge ↔ c.IsOld time := by
  have hle := UInt32.le_iff_toNat_le.1 h
  rw [UInt32.lt_iff_toNat_lt, toNat_minAge, if_pos h, IsOld]
  omega

/-- Nothing is old while the newest time is less than the age. -/
lemma not_isOld (h : ¬ c.maxAge ≤ c.lastTime) (time : UInt32) : ¬ c.IsOld time := by
  intro hold
  refine h (UInt32.le_iff_toNat_le.2 ?_)
  rw [IsOld] at hold
  omega

/-- The wrapped difference is newer than the newest time. -/
lemma lastTime_lt_minAge (h : ¬ c.maxAge ≤ c.lastTime) : c.lastTime < c.minAge := by
  have hage := c.maxAge.toNat_lt
  rw [UInt32.lt_iff_toNat_lt, toNat_minAge, if_neg h]
  omega

/-- A pruning pass keeps exactly the keys that are not old, if and only if the newest time is not
less than the maximum age, or all times are at least the wrapped difference of the two. -/
theorem prune_exact_iff (c : KeyCache κ) :
    (∀ entry, entry ∈ c.prune.keys ↔ entry ∈ c.keys ∧ ¬ c.IsOld entry.2) ↔
      c.maxAge ≤ c.lastTime ∨ ∀ entry ∈ c.keys, c.lastTime - c.maxAge ≤ entry.2 := by
  constructor
  · intro hexact
    by_cases h : c.maxAge ≤ c.lastTime
    · exact Or.inl h
    · refine Or.inr fun entry hmem => ?_
      have hkept := (hexact entry).2 ⟨hmem, not_isOld h entry.2⟩
      exact UInt32.not_lt.1 (mem_keys_prune.1 hkept).2
  · rintro (h | hall) entry
    · rw [mem_keys_prune, lt_minAge_iff h]
    · rw [mem_keys_prune]
      refine and_congr_right fun hmem => ?_
      have hkept : ¬ entry.2 < c.minAge := UInt32.not_lt.2 (hall entry hmem)
      refine iff_of_true hkept fun hold => ?_
      -- an old time is before the cut-off, which has not wrapped then
      by_cases h : c.maxAge ≤ c.lastTime
      · exact hkept ((lt_minAge_iff h entry.2).2 hold)
      · exact not_isOld h entry.2 hold

/-- A key that is as new as can be is erased as long as the newest time is less than the age. -/
theorem not_prune_exact :
    ¬ ∀ (c : KeyCache ℕ) (entry : ℕ × UInt32),
      entry ∈ c.prune.keys ↔ entry ∈ c.keys ∧ ¬ c.IsOld entry.2 := by
  intro hall
  let c : KeyCache ℕ := ((⟨[], List.nodup_nil, 0, 10⟩ : KeyCache ℕ).insert (some 7) (some 5)).1
  have hkept : (7, 5) ∈ c.prune.keys := (hall c (7, 5)).2 ⟨by decide, by decide⟩
  exact absurd hkept (by decide)

/-! ### Runs of the inserter -/

/-- What happens to the cache. -/
inductive KeyCacheEvent (κ : Type*) where
  | insert (key : Option κ) (timestamp : Option UInt32)
  | prune
  | clear

/-- No key is newer than the newest time. -/
def Dated (c : KeyCache κ) : Prop := ∀ entry ∈ c.keys, entry.2 ≤ c.lastTime

/-- In a cache that has come about, a pass before that erases all keys. -/
lemma keys_prune_eq_nil (hdated : c.Dated) (h : ¬ c.maxAge ≤ c.lastTime) : c.prune.keys = [] := by
  refine List.eq_nil_iff_forall_not_mem.2 fun entry hmem => ?_
  obtain ⟨hkey, hkept⟩ := mem_keys_prune.1 hmem
  have hle := UInt32.le_iff_toNat_le.1 (hdated entry hkey)
  have hlt := UInt32.lt_iff_toNat_lt.1 (lastTime_lt_minAge h)
  exact hkept (UInt32.lt_iff_toNat_lt.2 (by omega))

variable [DecidableEq κ]

def step (c : KeyCache κ) : KeyCacheEvent κ → KeyCache κ
  | .insert key timestamp => (c.insert key timestamp).1
  | .prune => c.prune
  | .clear => c.clear

lemma Dated.insert (h : c.Dated) (key : Option κ) (timestamp : Option UInt32) :
    (c.insert key timestamp).1.Dated := by
  have hnewest := le_newest c timestamp
  cases key with
  | none => exact h
  | some key =>
    rw [KeyCache.insert]
    split_ifs with hkey
    · intro entry hmem
      obtain ⟨old, hold, rfl⟩ := List.mem_map.1 hmem
      dsimp only
      split_ifs
      · exact UInt32.le_refl _
      · exact UInt32.le_trans (h old hold) hnewest
    · intro entry hmem
      rcases List.mem_cons.1 hmem with rfl | hmem
      · exact UInt32.le_refl _
      · exact UInt32.le_trans (h entry hmem) hnewest

lemma Dated.step (h : c.Dated) (e : KeyCacheEvent κ) : (c.step e).Dated := by
  cases e with
  | insert key timestamp => exact h.insert key timestamp
  | prune => exact fun entry hmem => h entry (mem_keys_prune.1 hmem).1
  | clear => exact fun entry hmem => absurd hmem List.not_mem_nil

lemma Dated.run (h : c.Dated) (es : List (KeyCacheEvent κ)) : (es.foldl KeyCache.step c).Dated := by
  induction es generalizing c with
  | nil => exact h
  | cons e es ih => exact ih (h.step e)

/-- After a run that begins with no keys, a pass is exact if and only if the newest time is not
less than the maximum age, or there are no keys. -/
theorem prune_exact_iff_of_run (maxAge : UInt32) (es : List (KeyCacheEvent κ)) :
    let c := es.foldl step ({ maxAge := maxAge } : KeyCache κ)
    (∀ entry, entry ∈ c.prune.keys ↔ entry ∈ c.keys ∧ ¬ c.IsOld entry.2) ↔
      c.maxAge ≤ c.lastTime ∨ c.keys = [] := by
  intro c
  have hdated : c.Dated :=
    Dated.run (c := { maxAge := maxAge }) (fun entry hmem => absurd hmem List.not_mem_nil) es
  rw [prune_exact_iff]
  refine or_congr_right' fun h => ?_
  constructor
  · intro hall
    refine List.eq_nil_iff_forall_not_mem.2 fun entry hmem => ?_
    have hkept : entry ∈ c.prune.keys := mem_keys_prune.2 ⟨hmem, UInt32.not_lt.2 (hall entry hmem)⟩
    rw [keys_prune_eq_nil hdated h] at hkept
    exact List.not_mem_nil hkept
  · intro hnil entry hmem
    rw [hnil] at hmem
    exact absurd hmem List.not_mem_nil

end KeyCache

end PionCore.Platform
