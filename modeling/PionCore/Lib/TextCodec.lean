/-
# Codecs that are called until they have nothing more

A codec reads the next value from a stream.  It is called until it stops, throws or has found the
end of the stream; what is left of its state is there for the next stream.
-/
import PionCore.Lib.Ascii
import Mathlib.Data.List.Induction
import Mathlib.Data.Prod.Lex

namespace PionCore.Lib

/-- What a call gives: a value, nothing, an exception, or undefined behaviour. -/
inductive ReadStep (ε : Type*) where
  | value (e : ε)
  | stop
  | threw
  | undefined

/-- How the calls end. -/
inductive ReadEnd where
  | stopped
  | threw
  | undefined
deriving DecidableEq

/-- A codec with its stream.  A call that gives a value makes the state smaller. -/
structure TextCodec (σ ε : Type*) where
  start : σ
  /-- another stream -/
  feed : σ → Bytes → σ
  read : σ → ReadStep ε × σ
  eof : σ → Bool
  size : σ → ℕ × ℕ
  shrinks : ∀ s e s', read s = (.value e, s') → Prod.Lex (· < ·) (· < ·) (size s') (size s)

namespace TextCodec

variable {σ ε : Type*} (c : TextCodec σ ε)

/-- The calls up to the end of the stream: the values, how they end, and the state behind them. -/
def drain (s : σ) : List ε × ReadEnd × σ :=
  if c.eof s then ([], .stopped, s)
  else
    match _h : c.read s with
    | (.value e, s') => (e :: (drain s').1, (drain s').2)
    | (.stop, s') => ([], .stopped, s')
    | (.threw, s') => ([], .threw, s')
    | (.undefined, s') => ([], .undefined, s')
termination_by c.size s
decreasing_by all_goals exact c.shrinks s e s' _h

variable {c} {s s' : σ} {e : ε}

lemma drain_eof (h : c.eof s = true) : c.drain s = ([], .stopped, s) := by
  rw [drain, if_pos h]

lemma drain_value (heof : c.eof s = false) (h : c.read s = (.value e, s')) :
    c.drain s = (e :: (c.drain s').1, (c.drain s').2) := by
  rw [drain, if_neg (by simp [heof])]
  split <;> rename_i h' <;> rw [h] at h' <;> cases h'
  rfl

lemma drain_stop (heof : c.eof s = false) (h : c.read s = (.stop, s')) :
    c.drain s = ([], .stopped, s') := by
  rw [drain, if_neg (by simp [heof])]
  split <;> rename_i h' <;> rw [h] at h' <;> cases h'
  rfl

lemma drain_threw (heof : c.eof s = false) (h : c.read s = (.threw, s')) :
    c.drain s = ([], .threw, s') := by
  rw [drain, if_neg (by simp [heof])]
  split <;> rename_i h' <;> rw [h] at h' <;> cases h'
  rfl

lemma drain_undefined (heof : c.eof s = false) (h : c.read s = (.undefined, s')) :
    c.drain s = ([], .undefined, s') := by
  rw [drain, if_neg (by simp [heof])]
  split <;> rename_i h' <;> rw [h] at h' <;> cases h'
  rfl

/-- Only the first call counts. -/
lemma drain_of_read {t : σ} (hs : c.eof s = false) (ht : c.eof t = false)
    (h : c.read s = c.read t) : c.drain s = c.drain t := by
  cases hread : c.read t with
  | mk step t' =>
    rw [hread] at h
    cases step with
    | value e => rw [drain_value hs h, drain_value ht hread]
    | stop => rw [drain_stop hs h, drain_stop ht hread]
    | threw => rw [drain_threw hs h, drain_threw ht hread]
    | undefined => rw [drain_undefined hs h, drain_undefined ht hread]

/-- States in which a codec does the same, call by call. -/
lemma drain_congr {τ : Type*} {d : TextCodec τ ε} {R : σ → τ → Prop}
    (heof : ∀ s t, R s t → c.eof s = d.eof t)
    (hread : ∀ s t, R s t → (c.read s).1 = (d.read t).1 ∧ R (c.read s).2 (d.read t).2)
    {s : σ} {t : τ} (h : R s t) : (c.drain s).1 = (d.drain t).1 ∧
      (c.drain s).2.1 = (d.drain t).2.1 ∧ R (c.drain s).2.2 (d.drain t).2.2 := by
  induction s using drain.induct c generalizing t with
  | case1 s hs =>
    rw [drain_eof hs, drain_eof ((heof s t h).symm.trans hs)]
    exact ⟨rfl, rfl, h⟩
  | case2 s hs e s' hv ih =>
    have hs : c.eof s = false := by simpa using hs
    obtain ⟨hstep, hR⟩ := hread s t h
    rw [hv] at hstep hR
    rw [drain_value hs hv, drain_value ((heof s t h).symm.trans hs) (Prod.ext hstep.symm rfl)]
    obtain ⟨hvalues, hend, hstate⟩ := ih hR
    exact ⟨congrArg _ hvalues, hend, hstate⟩
  | case3 s hs s' hv =>
    have hs : c.eof s = false := by simpa using hs
    obtain ⟨hstep, hR⟩ := hread s t h
    rw [hv] at hstep hR
    rw [drain_stop hs hv, drain_stop ((heof s t h).symm.trans hs) (Prod.ext hstep.symm rfl)]
    exact ⟨rfl, rfl, hR⟩
  | case4 s hs s' hv =>
    have hs : c.eof s = false := by simpa using hs
    obtain ⟨hstep, hR⟩ := hread s t h
    rw [hv] at hstep hR
    rw [drain_threw hs hv, drain_threw ((heof s t h).symm.trans hs) (Prod.ext hstep.symm rfl)]
    exact ⟨rfl, rfl, hR⟩
  | case5 s hs s' hv =>
    have hs : c.eof s = false := by simpa using hs
    obtain ⟨hstep, hR⟩ := hread s t h
    rw [hv] at hstep hR
    rw [drain_undefined hs hv,
      drain_undefined ((heof s t h).symm.trans hs) (Prod.ext hstep.symm rfl)]
    exact ⟨rfl, rfl, hR⟩

/-- What every call keeps. -/
lemma drain_invariant {P : σ → Prop} (hread : ∀ s, P s → P (c.read s).2) {s : σ} (h : P s) :
    P (c.drain s).2.2 :=
  (drain_congr (d := c) (R := fun s t => s = t ∧ P s) (fun s t h => by rw [h.1])
    (fun s t h => by
      obtain ⟨rfl, hs⟩ := h
      exact ⟨rfl, rfl, hread s hs⟩) ⟨rfl, h⟩).2.2.2

/-- What is the case when the calls end well. -/
lemma drain_stopped {P : σ → Prop}
    (hvalue : ∀ s e s', c.read s = (.value e, s') → c.eof s' = true → P s')
    (hstop : ∀ s s', c.read s = (.stop, s') → P s') (hs : c.eof s = true → P s)
    (h : (c.drain s).2.1 = .stopped) : P (c.drain s).2.2 := by
  induction s using drain.induct c with
  | case1 s heof =>
    rw [drain_eof heof]
    exact hs heof
  | case2 s heof e s' hv ih =>
    rw [drain_value (by simpa using heof) hv] at h ⊢
    exact ih (hvalue s e s' hv) h
  | case3 s heof s' hv =>
    rw [drain_stop (by simpa using heof) hv]
    exact hstop s s' hv
  | case4 s heof s' hv =>
    rw [drain_threw (by simpa using heof) hv] at h
    cases h
  | case5 s heof s' hv =>
    rw [drain_undefined (by simpa using heof) hv] at h
    cases h

variable (c) in
/-- A number of calls that may be enough, for evaluation. -/
def drainWithin : ℕ → σ → Option (List ε × ReadEnd × σ)
  | 0, _ => none
  | n + 1, s =>
    if c.eof s then some ([], .stopped, s)
    else
      match c.read s with
      | (.value e, s') => (drainWithin n s').map fun x => (e :: x.1, x.2)
      | (.stop, s') => some ([], .stopped, s')
      | (.threw, s') => some ([], .threw, s')
      | (.undefined, s') => some ([], .undefined, s')

lemma drain_of_drainWithin {n : ℕ} {x : List ε × ReadEnd × σ} (h : c.drainWithin n s = some x) :
    c.drain s = x := by
  induction n generalizing s x with
  | zero => cases h
  | succ n ih =>
    rw [drainWithin] at h
    by_cases heof : c.eof s = true
    · rw [if_pos heof] at h
      rw [drain_eof heof, ← Option.some.inj h]
    · rw [if_neg heof] at h
      have heof : c.eof s = false := by simpa using heof
      split at h
      · rename_i e s' hread
        obtain ⟨z, hz, rfl⟩ := Option.map_eq_some_iff.1 h
        rw [drain_value heof hread, ih hz]
      · rename_i hread
        rw [drain_stop heof hread, ← Option.some.inj h]
      · rename_i hread
        rw [drain_threw heof hread, ← Option.some.inj h]
      · rename_i hread
        rw [drain_undefined heof hread, ← Option.some.inj h]

lemma apply_drain {α : Type*} (n : ℕ) (f : List ε × ReadEnd × σ → α) {a : α}
    (h : (c.drainWithin n s).map f = some a) : f (c.drain s) = a := by
  obtain ⟨x, hx, rfl⟩ := Option.map_eq_some_iff.1 h
  rw [drain_of_drainWithin hx]

/-- A codec whose calls are all defined. -/
lemma drain_defined (hread : ∀ s, (c.read s).1 ≠ .undefined) (s : σ) :
    (c.drain s).2.1 ≠ .undefined := by
  induction s using drain.induct c with
  | case1 s hs => rw [drain_eof hs]; exact ReadEnd.noConfusion
  | case2 s hs e s' hv ih => rw [drain_value (by simpa using hs) hv]; exact ih
  | case3 s hs s' hv => rw [drain_stop (by simpa using hs) hv]; exact ReadEnd.noConfusion
  | case4 s hs s' hv => rw [drain_threw (by simpa using hs) hv]; exact ReadEnd.noConfusion
  | case5 s hs s' hv => exact absurd (congrArg Prod.fst hv) (hread s)

/-! ### One stream after the other -/

variable (c)

/-- The values that a new codec reads from a stream, and how this ends. -/
def alone (w : Bytes) : List ε × ReadEnd :=
  ((c.drain (c.feed c.start w)).1, (c.drain (c.feed c.start w)).2.1)

/-- The streams of a list, up to the first one that does not end well. -/
def drainAll : List Bytes → σ → List ε × ReadEnd × σ
  | [], s => ([], .stopped, s)
  | w :: ws, s =>
    let x := c.drain (c.feed s w)
    if x.2.1 = .stopped then (x.1 ++ (drainAll ws x.2.2).1, (drainAll ws x.2.2).2) else x

/-- Lists of streams, with what becomes of the values of each; an exception ends a list. -/
def drainLists : List (List Bytes × (ε → ε)) → σ → List ε
  | [], _ => []
  | x :: xs, s =>
    let y := c.drainAll x.1 s
    y.1.map x.2 ++ if y.2.1 = .undefined then [] else drainLists xs y.2.2

/-- When the codec is as good as a new one, which streams it then reads as a new one does, and which
streams leave it like that. -/
structure Reuse where
  Ready : σ → Prop
  Fits : Bytes → Prop
  Leaves : Bytes → Prop
  start : Ready c.start
  same : ∀ s w, Ready s → Fits w →
    (c.drain (c.feed s w)).1 = (c.alone w).1 ∧ (c.drain (c.feed s w)).2.1 = (c.alone w).2
  keeps : ∀ s w, Ready s → Leaves w → Ready (c.drain (c.feed s w)).2.2
  defined : ∀ w, Leaves w → (c.alone w).2 ≠ .undefined

variable {c}

/-- Only the last stream may leave a trace, and only the last one of a list may throw. -/
structure Reuse.Separate (r : c.Reuse) (xs : List (List Bytes)) : Prop where
  fits : ∀ w ∈ xs.flatten, r.Fits w
  leaves : ∀ w ∈ xs.flatten.dropLast, r.Leaves w
  stops : ∀ ws ∈ xs, ∀ w ∈ ws.dropLast, (c.alone w).2 = .stopped

/-- There is but one stream. -/
lemma Reuse.separate_single (r : c.Reuse) {w : Bytes} (h : r.Fits w) : r.Separate [[w]] where
  fits v hv := by
    obtain rfl := List.mem_singleton.1 hv
    exact h
  leaves v hv := absurd hv List.not_mem_nil
  stops ws hws v hv := by
    obtain rfl := List.mem_singleton.1 hws
    exact absurd hv List.not_mem_nil

lemma dropLast_append_mem {α : Type*} {a : α} {l m : List α} (h : a ∈ l) (hm : m ≠ []) :
    a ∈ (l ++ m).dropLast := by
  rw [List.dropLast_append_of_ne_nil hm]
  exact List.mem_append_left _ h

lemma drainLists_nil {xs : List (List Bytes × (ε → ε))} (h : ∀ x ∈ xs, x.1 = []) (s : σ) :
    c.drainLists xs s = [] := by
  induction xs with
  | nil => rfl
  | cons x xs ih =>
    obtain ⟨hx, hxs⟩ := List.forall_mem_cons.1 h
    rw [drainLists, hx]
    exact ih hxs

/-- The streams of one list. -/
lemma Reuse.drainAll_eq (r : c.Reuse) {ws : List Bytes} {s : σ} (hs : r.Ready s)
    (hfits : ∀ w ∈ ws, r.Fits w) (hleaves : ∀ w ∈ ws.dropLast, r.Leaves w)
    (hstops : ∀ w ∈ ws.dropLast, (c.alone w).2 = .stopped) :
    (c.drainAll ws s).1 = ws.flatMap (fun w => (c.alone w).1) ∧
      ((∀ w ∈ ws, r.Leaves w) →
        (c.drainAll ws s).2.1 ≠ .undefined ∧ r.Ready (c.drainAll ws s).2.2) := by
  induction ws generalizing s with
  | nil => exact ⟨rfl, fun _ => ⟨by simp [drainAll], hs⟩⟩
  | cons w ws ih =>
    obtain ⟨hw, hws⟩ := List.forall_mem_cons.1 hfits
    obtain ⟨hvalues, hend⟩ := r.same s w hs hw
    rw [List.flatMap_cons, drainAll]
    by_cases hstopped : (c.drain (c.feed s w)).2.1 = .stopped
    · rw [if_pos hstopped]
      cases ws with
      | nil =>
        refine ⟨?_, fun hall => ⟨by simp [drainAll], r.keeps s w hs (hall w List.mem_cons_self)⟩⟩
        show (c.drain (c.feed s w)).1 ++ [] = _
        rw [hvalues, List.flatMap_nil]
      | cons u us =>
        rw [List.dropLast_cons_of_ne_nil (List.cons_ne_nil u us)] at hleaves hstops
        obtain ⟨hleave, hleaves⟩ := List.forall_mem_cons.1 hleaves
        obtain ⟨hrest, hstate⟩ := ih (r.keeps s w hs hleave) hws hleaves
          (List.forall_mem_cons.1 hstops).2
        exact ⟨by rw [hvalues, hrest], fun hall => hstate (List.forall_mem_cons.1 hall).2⟩
    · rw [if_neg hstopped]
      obtain rfl : ws = [] := by
        by_contra hne
        obtain ⟨u, us, rfl⟩ := List.exists_cons_of_ne_nil hne
        exact hstopped (hend.trans (hstops w (by simp)))
      refine ⟨by rw [hvalues, List.flatMap_nil, List.append_nil], fun hall => ?_⟩
      have hw' := hall w List.mem_cons_self
      exact ⟨hend ▸ r.defined w hw', r.keeps s w hs hw'⟩

/-- All streams are read as by a new codec each. -/
theorem Reuse.drainLists_eq (r : c.Reuse) {xs : List (List Bytes × (ε → ε))}
    (h : r.Separate (xs.map Prod.fst)) {s : σ} (hs : r.Ready s) :
    c.drainLists xs s =
      xs.flatMap fun x => (x.1.flatMap fun w => (c.alone w).1).map x.2 := by
  induction xs generalizing s with
  | nil => rfl
  | cons x xs ih =>
    obtain ⟨hfits, hleaves, hstops⟩ := h
    rw [List.map_cons, List.flatten_cons] at hfits hleaves
    rw [List.map_cons] at hstops
    obtain ⟨hstops, hstopsRest⟩ := List.forall_mem_cons.1 hstops
    have hfitsRest := fun w hw => hfits w (List.mem_append_right _ hw)
    rw [drainLists, List.flatMap_cons]
    by_cases hnil : (xs.map Prod.fst).flatten = []
    · -- no stream is left
      rw [hnil, List.append_nil] at hfits hleaves
      obtain ⟨hvalues, -⟩ := r.drainAll_eq hs hfits hleaves hstops
      have hnone : ∀ x ∈ xs, x.1 = [] := fun y hy =>
        List.flatten_eq_nil_iff.1 hnil y.1 (List.mem_map_of_mem hy)
      have hexpected : xs.flatMap (fun x => (x.1.flatMap fun w => (c.alone w).1).map x.2) = [] :=
        List.flatMap_eq_nil_iff.2 fun y hy => by rw [hnone y hy]; rfl
      rw [hvalues, drainLists_nil hnone, hexpected]
      simp
    · have hall : ∀ w ∈ x.1, r.Leaves w := fun w hw => hleaves w (dropLast_append_mem hw hnil)
      obtain ⟨hvalues, hstate⟩ := r.drainAll_eq hs (fun w hw => hfits w (List.mem_append_left _ hw))
        (fun w hw => hall w (List.mem_of_mem_dropLast hw)) hstops
      obtain ⟨hdefined, hready⟩ := hstate hall
      rw [List.dropLast_append_of_ne_nil hnil] at hleaves
      rw [if_neg hdefined, hvalues, ih ⟨hfitsRest, fun w hw =>
        hleaves w (List.mem_append_right _ hw), hstopsRest⟩ hready]

end TextCodec

end PionCore.Lib
