/-
# Reading loops that can be suspended

A reading loop looks at one letter after the other; each turn either consumes the
letter and goes on, or stops with a result, with or without consuming the letter it
stopped at.  `scan` runs such a loop over a word.  A loop that runs out of letters can be
continued later with more of them, and the place where the letters were cut leaves no
trace (`scan_append`).  A reader that is handed whole buffers `Refines` a loop when it
does with each buffer what the loop does with its letters, up to what a view `g` of the
states does not show; such a reader does not see how a word is cut into buffers.
-/
import Mathlib.Data.List.Basic
import Mathlib.Tactic.Common

namespace PionCore.Lib

variable {β σ ρ : Type*}

/-- What one turn of a reading loop decides about the letter it looks at. -/
inductive Turn (σ ρ : Type*) where
  /-- The letter is consumed and the loop goes on. -/
  | next (s : σ)
  /-- The loop ends with a result; the letter is consumed only if `consume` holds. -/
  | stop (consume : Bool) (r : ρ) (s : σ)

/-- The same turn on a view of the states. -/
def Turn.map {τ : Type*} (g : σ → τ) : Turn σ ρ → Turn τ ρ
  | .next s => .next (g s)
  | .stop b r s => .stop b r (g s)

/-- The state that a turn leaves. -/
def Turn.state : Turn σ ρ → σ
  | .next s => s
  | .stop _ _ s => s

/-- The outcome of a reader: its result if it came to one, the letters it did not
consume, and the state it was left in. -/
@[ext]
structure Scanned (β σ ρ : Type*) where
  result : Option ρ
  rest : List β
  state : σ

namespace Scanned

/-- The same outcome on a view of the states. -/
def map {τ : Type*} (g : σ → τ) (x : Scanned β σ ρ) : Scanned β τ ρ :=
  ⟨x.result, x.rest, g x.state⟩

/-- Continue a reader that came to no result with more letters. -/
def resume (x : Scanned β σ ρ) (f : σ → List β → Scanned β σ ρ) (w : List β) :
    Scanned β σ ρ :=
  match x.result with
  | none => f x.state w
  | some r => ⟨some r, x.rest ++ w, x.state⟩

lemma resume_none {x : Scanned β σ ρ} (h : x.result = none)
    (f : σ → List β → Scanned β σ ρ) (w : List β) : x.resume f w = f x.state w := by
  simp [resume, h]

lemma resume_some {x : Scanned β σ ρ} {r : ρ} (h : x.result = some r)
    (f : σ → List β → Scanned β σ ρ) (w : List β) :
    x.resume f w = ⟨some r, x.rest ++ w, x.state⟩ := by
  simp [resume, h]

end Scanned

/-- The reading loop of a turn function. -/
def scan (step : σ → β → Turn σ ρ) : σ → List β → Scanned β σ ρ
  | s, [] => ⟨none, [], s⟩
  | s, c :: w =>
      match step s c with
      | .next s' => scan step s' w
      | .stop true r s' => ⟨some r, w, s'⟩
      | .stop false r s' => ⟨some r, c :: w, s'⟩

section Scan

variable {step : σ → β → Turn σ ρ}

@[simp] lemma scan_nil (s : σ) : scan step s [] = ⟨none, [], s⟩ := rfl

lemma scan_next {s s' : σ} {c : β} (h : step s c = .next s') (w : List β) :
    scan step s (c :: w) = scan step s' w := by
  simp [scan, h]

lemma scan_stop {s s' : σ} {c : β} {r : ρ} (h : step s c = .stop true r s') (w : List β) :
    scan step s (c :: w) = ⟨some r, w, s'⟩ := by
  simp [scan, h]

lemma scan_halt {s s' : σ} {c : β} {r : ρ} (h : step s c = .stop false r s') (w : List β) :
    scan step s (c :: w) = ⟨some r, c :: w, s'⟩ := by
  simp [scan, h]

/-- What holds of the start and is kept by every turn holds of the end of a loop. -/
lemma scan_invariant {P : σ → Prop}
    (hnext : ∀ s c s', P s → step s c = .next s' → P s')
    (hstop : ∀ s c b r s', P s → step s c = .stop b r s' → P s')
    (s : σ) (w : List β) (hs : P s) : P (scan step s w).state := by
  induction w generalizing s with
  | nil => exact hs
  | cons c w ih =>
    cases h : step s c with
    | next s' =>
      rw [scan_next h]
      exact ih s' (hnext s c s' hs h)
    | stop b r s' =>
      have hs' := hstop s c b r s' hs h
      cases b with
      | true => rwa [scan_stop h]
      | false => rwa [scan_halt h]

/-- The same for a property that is seen of the state behind each turn. -/
lemma scan_keeps {P : σ → Prop} (h : ∀ s c, P s → P (step s c).state) (s : σ) (w : List β)
    (hs : P s) : P (scan step s w).state := by
  refine scan_invariant (fun t c t' ht hnext => ?_) (fun t c b r t' ht hstop => ?_) s w hs
  · have hstate := h t c ht
    rwa [hnext] at hstate
  · have hstate := h t c ht
    rwa [hstop] at hstate

/-- What every turn keeps that goes on holds as long as there is no result. -/
lemma scan_open {P : σ → Prop} (hnext : ∀ s c s', P s → step s c = .next s' → P s')
    {s : σ} {w : List β} (hs : P s) (h : (scan step s w).result = none) :
    P (scan step s w).state := by
  induction w generalizing s with
  | nil => exact hs
  | cons c w ih =>
    cases hc : step s c with
    | next s' =>
      rw [scan_next hc] at h ⊢
      exact ih (hnext s c s' hs hc) h
    | stop b r s' =>
      cases b with
      | true => simp [scan_stop hc] at h
      | false => simp [scan_halt hc] at h

/-- What the turns with a result lead to holds where a loop comes to a result. -/
lemma scan_closed {P : σ → Prop} {Q : ρ → σ → Prop}
    (hnext : ∀ s c s', P s → step s c = .next s' → P s')
    (hstop : ∀ s c b r s', P s → step s c = .stop b r s' → Q r s')
    {s : σ} {w : List β} {r : ρ} (hs : P s) (h : (scan step s w).result = some r) :
    Q r (scan step s w).state := by
  induction w generalizing s with
  | nil => simp at h
  | cons c w ih =>
    cases hc : step s c with
    | next s' =>
      rw [scan_next hc] at h ⊢
      exact ih (hnext s c s' hs hc) h
    | stop b r' s' =>
      have hs' := hstop s c b r' s' hs hc
      cases b with
      | true =>
        rw [scan_stop hc] at h ⊢
        exact Option.some.inj h ▸ hs'
      | false =>
        rw [scan_halt hc] at h ⊢
        exact Option.some.inj h ▸ hs'

/-- Two turn functions that agree on the states a loop passes through. -/
lemma scan_congr {step' : σ → β → Turn σ ρ} {P : σ → Prop}
    (hnext : ∀ s c s', P s → step s c = .next s' → P s')
    (h : ∀ s c, P s → step s c = step' s c) {s : σ} (hs : P s) (w : List β) :
    scan step s w = scan step' s w := by
  induction w generalizing s with
  | nil => rfl
  | cons c w ih =>
    have heq := h s c hs
    cases hc : step s c with
    | next s' => rw [scan_next hc, scan_next (heq ▸ hc), ih (hnext s c s' hs hc)]
    | stop b r s' =>
      cases b with
      | true => rw [scan_stop hc, scan_stop (heq ▸ hc)]
      | false => rw [scan_halt hc, scan_halt (heq ▸ hc)]

end Scan

/-- A reading loop can be cut anywhere. -/
theorem scan_append (step : σ → β → Turn σ ρ) (s : σ) (a b : List β) :
    scan step s (a ++ b) = (scan step s a).resume (scan step) b := by
  induction a generalizing s with
  | nil => simp [Scanned.resume]
  | cons c a ih =>
    cases h : step s c with
    | next s' => rw [List.cons_append, scan_next h, scan_next h, ih]
    | stop t r s' =>
      cases t with
      | true => simp [scan_stop h, Scanned.resume]
      | false => simp [scan_halt h, Scanned.resume]

/-- A loop without a result has consumed everything. -/
lemma scan_drained (step : σ → β → Turn σ ρ) (s : σ) (w : List β)
    (h : (scan step s w).result = none) : (scan step s w).rest = [] := by
  induction w generalizing s with
  | nil => rfl
  | cons c w ih =>
    cases hc : step s c with
    | next s' =>
      rw [scan_next hc] at h ⊢
      exact ih s' h
    | stop b r s' =>
      cases b with
      | true => simp [scan_stop hc] at h
      | false => simp [scan_halt hc] at h

/-- A loop that consumes all of a word has no result in front of its end. -/
lemma scan_prefix_none {step : σ → β → Turn σ ρ} {s : σ} {v w : List β} (hw : w ≠ [])
    (h : (scan step s (v ++ w)).rest = []) : (scan step s v).result = none := by
  cases hr : (scan step s v).result with
  | none => rfl
  | some r =>
    rw [scan_append, Scanned.resume_some hr] at h
    exact absurd (List.append_eq_nil_iff.1 h).2 hw

/-- A loop takes its letters from the front. -/
lemma scan_rest (step : σ → β → Turn σ ρ) (s : σ) (w : List β) :
    ∃ v, w = v ++ (scan step s w).rest := by
  induction w generalizing s with
  | nil => exact ⟨[], rfl⟩
  | cons c w ih =>
    cases h : step s c with
    | next s' =>
      obtain ⟨v, hv⟩ := ih s'
      exact ⟨c :: v, by rw [scan_next h, List.cons_append, ← hv]⟩
    | stop b r s' =>
      cases b with
      | true => exact ⟨[c], by rw [scan_stop h]; rfl⟩
      | false => exact ⟨[], by rw [scan_halt h]; rfl⟩

/-- A loop comes to a result at the first letter at which a turn has one. -/
lemma scan_result_iff {step : σ → β → Turn σ ρ} {s : σ} {w : List β} {r : ρ} :
    (scan step s w).result = some r ↔
      ∃ u c v t b t', w = u ++ c :: v ∧ scan step s u = ⟨none, [], t⟩ ∧ step t c = .stop b r t' := by
  constructor
  · intro h
    induction w generalizing s with
    | nil => cases h
    | cons c w ih =>
      cases hc : step s c with
      | next s' =>
        rw [scan_next hc] at h
        obtain ⟨u, d, v, t, b, t', rfl, hu, ht⟩ := ih h
        exact ⟨c :: u, d, v, t, b, t', rfl, (scan_next hc u).trans hu, ht⟩
      | stop b r' s' =>
        have hr : r' = r := by
          cases b with
          | true => rwa [scan_stop hc, Option.some.injEq] at h
          | false => rwa [scan_halt hc, Option.some.injEq] at h
        exact ⟨[], c, w, s, b, s', rfl, rfl, hr ▸ hc⟩
  · rintro ⟨u, c, v, t, b, t', rfl, hu, ht⟩
    rw [scan_append, hu, Scanned.resume_none rfl]
    cases b with
    | true => exact congrArg Scanned.result (scan_stop ht v)
    | false => exact congrArg Scanned.result (scan_halt ht v)

/-- A loop that commutes with a change of the states. -/
lemma scan_map {step : σ → β → Turn σ ρ} {g : σ → σ} (h : ∀ s c, step (g s) c = (step s c).map g)
    (s : σ) (w : List β) : scan step (g s) w = (scan step s w).map g := by
  induction w generalizing s with
  | nil => rfl
  | cons c w ih =>
    have hc := h s c
    cases hs : step s c with
    | next s' =>
      rw [hs] at hc
      rw [scan_next hc, scan_next hs, ih]
    | stop b r s' =>
      rw [hs] at hc
      cases b with
      | true => rw [scan_stop hc, scan_stop hs, Scanned.map]
      | false => rw [scan_halt hc, scan_halt hs, Scanned.map]

/-- A loop that comes to a result which no letter of a phase gives leaves the phase. -/
lemma scan_leaves {τ : Type*} (step : σ → β → Turn σ ρ) (emb : τ → σ) (f : τ → β → τ)
    (P : β → Prop) {r : ρ}
    (h : ∀ t c, match step (emb t) c with
      | .next s => P c → s = emb (f t c)
      | .stop _ r' _ => r' ≠ r)
    {t : τ} {w : List β} (hw : (scan step (emb t) w).result = some r) :
    ∃ u c v s, w = u ++ c :: v ∧ (∀ d ∈ u, P d) ∧ ¬ P c ∧
      step (emb (u.foldl f t)) c = .next s ∧ scan step (emb t) w = scan step s v := by
  induction w generalizing t with
  | nil => cases hw
  | cons c w ih =>
    have hc := h t c
    cases hstep : step (emb t) c with
    | next s =>
      rw [hstep] at hc
      by_cases hP : P c
      · obtain rfl := hc hP
        rw [scan_next hstep] at hw ⊢
        obtain ⟨u, d, v, s, rfl, hu, hd, hs, hscan⟩ := ih hw
        exact ⟨c :: u, d, v, s, rfl, List.forall_mem_cons.2 ⟨hP, hu⟩, hd, hs, hscan⟩
      · exact ⟨[], c, w, s, rfl, by simp, hP, hstep, scan_next hstep w⟩
    | stop b r' s =>
      rw [hstep] at hc
      cases b with
      | true =>
        rw [scan_stop hstep] at hw
        exact absurd (Option.some.inj hw) hc
      | false =>
        rw [scan_halt hstep] at hw
        exact absurd (Option.some.inj hw) hc

/-! ### Letters that are collected -/

/-- The letters of a word are taken in one after the other. -/
lemma scan_fold {τ : Type*} {step : σ → β → Turn σ ρ} (emb : τ → σ) (f : τ → β → τ)
    {P : β → Prop} (h : ∀ t c, P c → step (emb t) c = .next (emb (f t c))) {w : List β}
    (hw : ∀ c ∈ w, P c) (t : τ) (rest : List β) :
    scan step (emb t) (w ++ rest) = scan step (emb (w.foldl f t)) rest := by
  induction w generalizing t with
  | nil => rfl
  | cons c w ih =>
    rw [List.cons_append, scan_next (h t c (hw c List.mem_cons_self)),
      ih (fun d hd => hw d (List.mem_cons_of_mem c hd)), List.foldl_cons]

/-- The letters of a word are added to a field, as long as the field has room for them. -/
lemma scan_collect (step : σ → β → Turn σ ρ) (emb : List β → σ) (max : ℕ) {P : β → Prop}
    (h : ∀ acc c, P c → acc.length < max → step (emb acc) c = .next (emb (acc ++ [c])))
    {w : List β} (hw : ∀ c ∈ w, P c) {a : List β} (hmax : a.length + w.length ≤ max)
    (rest : List β) : scan step (emb a) (w ++ rest) = scan step (emb (a ++ w)) rest := by
  induction w generalizing a with
  | nil => simp
  | cons c w ih =>
    rw [List.length_cons] at hmax
    have hc := h a c (hw c List.mem_cons_self) (by omega)
    rw [List.cons_append, scan_next hc, ih (fun d hd => hw d (List.mem_cons_of_mem c hd))
      (by rw [List.length_append, List.length_singleton]; omega), List.append_assoc,
      List.singleton_append]

/-- A word that is longer than the room of the field is not read to its end. -/
lemma scan_collect_full (step : σ → β → Turn σ ρ) (emb : List β → σ) (max : ℕ) {P : β → Prop}
    {b : Bool} {r : ρ}
    (h : ∀ acc c, P c → acc.length < max → step (emb acc) c = .next (emb (acc ++ [c])))
    (hfull : ∀ acc c, P c → acc.length = max → step (emb acc) c = .stop b r (emb acc))
    {w : List β} (hw : ∀ c ∈ w, P c) {a : List β} (ha : a.length ≤ max)
    (hmax : max < a.length + w.length) (rest : List β) :
    (scan step (emb a) (w ++ rest)).result = some r := by
  induction w generalizing a with
  | nil =>
    rw [List.length_nil] at hmax
    omega
  | cons c w ih =>
    rw [List.length_cons] at hmax
    have hc := hw c List.mem_cons_self
    rw [List.cons_append]
    rcases Nat.lt_or_eq_of_le ha with hlt | heq
    · rw [scan_next (h a c hc hlt)]
      exact ih (fun d hd => hw d (List.mem_cons_of_mem c hd))
        (by rw [List.length_append, List.length_singleton]; omega)
        (by rw [List.length_append, List.length_singleton]; omega)
    · cases b with
      | true => rw [scan_stop (hfull a c hc heq)]
      | false => rw [scan_halt (hfull a c hc heq)]

/-! ### Views -/

section View

variable {τ : Type*} {step : σ → β → Turn σ ρ} {g : σ → τ}

/-- A loop whose turns show the same on states that look the same. -/
def Respects (g : σ → τ) (step : σ → β → Turn σ ρ) : Prop :=
  ∀ s s' c, g s = g s' → (step s c).map g = (step s' c).map g

lemma Respects.of_view {g : σ → σ} (h : ∀ s c, (step (g s) c).map g = (step s c).map g) :
    Respects g step := fun s s' c hs => by rw [← h s, hs, h s']

/-- Two loops whose turns look the same on letters of one kind look the same on words of them. -/
lemma scan_view {σ' : Type*} {step' : σ' → β → Turn σ' ρ} {g' : σ' → τ} {P : β → Prop}
    (h : ∀ s s' c, P c → g s = g' s' → (step s c).map g = (step' s' c).map g')
    {s : σ} {s' : σ'} (hs : g s = g' s') {w : List β} (hw : ∀ c ∈ w, P c) :
    (scan step s w).map g = (scan step' s' w).map g' := by
  induction w generalizing s s' with
  | nil => simp [Scanned.map, scan, hs]
  | cons c w ih =>
    have hc := h s s' c (hw c List.mem_cons_self) hs
    cases h1 : step s c with
    | next t =>
      cases h2 : step' s' c with
      | next t' =>
        rw [scan_next h1, scan_next h2]
        rw [h1, h2] at hc
        exact ih (Turn.next.inj hc) fun d hd => hw d (List.mem_cons_of_mem c hd)
      | stop b r t' => simp [h1, h2, Turn.map] at hc
    | stop b r t =>
      cases h2 : step' s' c with
      | next t' => simp [h1, h2, Turn.map] at hc
      | stop b' r' t' =>
        simp only [h1, h2, Turn.map, Turn.stop.injEq] at hc
        obtain ⟨rfl, rfl, ht⟩ := hc
        cases b with
        | true => simp [scan_stop h1, scan_stop h2, Scanned.map, ht]
        | false => simp [scan_halt h1, scan_halt h2, Scanned.map, ht]

lemma Respects.scan (h : Respects g step) {s s' : σ} (hs : g s = g s') (w : List β) :
    (scan step s w).map g = (Lib.scan step s' w).map g :=
  scan_view (P := fun _ => True) (fun s s' c _ => h s s' c) hs fun _ _ => trivial

end View

/-! ### Phases -/

section Phase

variable {τ κ : Type*}

/-- A turn of a loop one phase of which is the loop of `step`.  Where that loop ends,
`leave` decides between a result and a state from which the whole loop goes on, with the
same letter if it was not consumed. -/
def phaseTurn (step : σ → β → Turn σ ρ) (emb : σ → τ) (leave : ρ → σ → (κ × τ) ⊕ τ)
    (go : τ → β → Turn τ κ) (s : σ) (c : β) : Turn τ κ :=
  match step s c with
  | .next s' => .next (emb s')
  | .stop b r s' =>
      match leave r s' with
      | .inl (k, t) => .stop b k t
      | .inr t => if b then .next t else go t c

/-- Only the states that a phase can leave matter for what comes behind it. -/
lemma phaseTurn_go {step : σ → β → Turn σ ρ} {emb : σ → τ} {leave : ρ → σ → (κ × τ) ⊕ τ}
    {go go' : τ → β → Turn τ κ} (h : ∀ r s t c, leave r s = .inr t → go t c = go' t c)
    (s : σ) (c : β) : phaseTurn step emb leave go s c = phaseTurn step emb leave go' s c := by
  unfold phaseTurn
  split
  · rfl
  · rename_i b r s' _
    cases hl : leave r s' with
    | inl kt => rfl
    | inr t => simp only [h r s' t c hl]

/-- Phases that look the same have turns that look the same. -/
lemma phaseTurn_view {υ ω : Type*} {g : τ → υ} {v : σ → ω} {step : σ → β → Turn σ ρ}
    {emb emb' : σ → τ} {leave leave' : ρ → σ → (κ × τ) ⊕ τ} {go : τ → β → Turn τ κ}
    {s s' : σ} {c : β} (hstep : (step s c).map v = (step s' c).map v)
    (hemb : ∀ t t', v t = v t' → g (emb t) = g (emb' t'))
    (hleave : ∀ r t t', v t = v t' →
      (leave r t).map (Prod.map id g) g = (leave' r t').map (Prod.map id g) g)
    (hgo : Respects g go) :
    (phaseTurn step emb leave go s c).map g = (phaseTurn step emb' leave' go s' c).map g := by
  unfold phaseTurn
  cases h1 : step s c with
  | next t =>
    cases h2 : step s' c with
    | next t' =>
      rw [h1, h2] at hstep
      simp only [Turn.map, hemb t t' (Turn.next.inj hstep)]
    | stop b r t' => simp [h1, h2, Turn.map] at hstep
  | stop b r t =>
    cases h2 : step s' c with
    | next t' => simp [h1, h2, Turn.map] at hstep
    | stop b' r' t' =>
      simp only [h1, h2, Turn.map, Turn.stop.injEq] at hstep
      obtain ⟨rfl, rfl, ht⟩ := hstep
      have h := hleave r t t' ht
      cases hl : leave r t with
      | inl kt =>
        cases hl' : leave' r t' with
        | inl kt' =>
          simp only [hl, hl', Sum.map_inl, Sum.inl.injEq, Prod.ext_iff, Prod.map_fst, id_eq,
            Prod.map_snd] at h
          simp only [hl, hl', Turn.map, h]
        | inr u' => simp [hl, hl'] at h
      | inr u =>
        cases hl' : leave' r t' with
        | inl kt' => simp [hl, hl'] at h
        | inr u' =>
          simp only [hl, hl', Sum.map_inr, Sum.inr.injEq] at h
          cases b with
          | true => simp [hl, hl', Turn.map, h]
          | false => simpa [hl, hl'] using hgo u u' c h

lemma phaseTurn_map {υ : Type*} {g : τ → υ} {step : σ → β → Turn σ ρ} {emb emb' : σ → τ}
    {leave leave' : ρ → σ → (κ × τ) ⊕ τ} {go : τ → β → Turn τ κ}
    (hemb : ∀ s, g (emb s) = g (emb' s))
    (hleave : ∀ r s, (leave r s).map (Prod.map id g) g = (leave' r s).map (Prod.map id g) g)
    (hgo : Respects g go) (s : σ) (c : β) :
    (phaseTurn step emb leave go s c).map g = (phaseTurn step emb' leave' go s c).map g := by
  refine phaseTurn_view (v := id) rfl ?_ ?_ hgo
  · rintro t _ rfl
    exact hemb t
  · rintro r t _ rfl
    exact hleave r t

/-- The outcome of a whole loop, from that of its first phase. -/
def leavePhase (emb : σ → τ) (leave : ρ → σ → (κ × τ) ⊕ τ)
    (go : τ → β → Turn τ κ) (x : Scanned β σ ρ) : Scanned β τ κ :=
  match x.result with
  | none => ⟨none, [], emb x.state⟩
  | some r =>
      match leave r x.state with
      | .inl (k, t) => ⟨some k, x.rest, t⟩
      | .inr t => scan go t x.rest

/-- A loop begins with its phase, and goes on behind it with what the phase left. -/
theorem scan_phase {step : σ → β → Turn σ ρ} {emb : σ → τ} {leave : ρ → σ → (κ × τ) ⊕ τ}
    {go : τ → β → Turn τ κ}
    (h : ∀ s c, go (emb s) c = phaseTurn step emb leave go s c) (s : σ) (w : List β) :
    scan go (emb s) w = leavePhase emb leave go (scan step s w) := by
  induction w generalizing s with
  | nil => rfl
  | cons c w ih =>
    have hc := h s c
    cases h1 : step s c with
    | next s' =>
      rw [phaseTurn, h1] at hc
      rw [scan_next hc, scan_next h1, ih]
    | stop b r s' =>
      simp only [phaseTurn, h1] at hc
      cases h2 : leave r s' with
      | inl kt =>
        simp only [h2] at hc
        cases b with
        | true => simp [scan_stop hc, scan_stop h1, leavePhase, h2]
        | false => simp [scan_halt hc, scan_halt h1, leavePhase, h2]
      | inr t =>
        simp only [h2] at hc
        cases b with
        | true => simp [scan_next hc, scan_stop h1, leavePhase, h2]
        | false =>
          have hgo : scan go (emb s) (c :: w) = scan go t (c :: w) := by
            simp only [Bool.false_eq_true, if_false] at hc
            simp only [scan, hc]
          simp [hgo, scan_halt h1, leavePhase, h2]

end Phase

/-! ### Readers that are handed pieces -/

section Feed

variable {δ : Type*}

/-- Hand a list of pieces to a reader, one after the other, until it comes to a result.
`letters` are the letters of a piece; those that the reader leaves are not consumed. -/
def feedAll (letters : δ → List β) (f : σ → δ → Scanned β σ ρ) :
    σ → List δ → Scanned β σ ρ
  | s, [] => ⟨none, [], s⟩
  | s, d :: ds =>
      match (f s d).result with
      | none =>
          let x := feedAll letters f (f s d).state ds
          ⟨x.result, (f s d).rest ++ x.rest, x.state⟩
      | some r => ⟨some r, (f s d).rest ++ ds.flatMap letters, (f s d).state⟩

lemma feedAll_none {letters : δ → List β} {f : σ → δ → Scanned β σ ρ} {s : σ} {d : δ}
    (h : (f s d).result = none) (ds : List δ) :
    feedAll letters f s (d :: ds) =
      ⟨(feedAll letters f (f s d).state ds).result,
        (f s d).rest ++ (feedAll letters f (f s d).state ds).rest,
        (feedAll letters f (f s d).state ds).state⟩ := by
  rw [feedAll, h]

lemma feedAll_some {letters : δ → List β} {f : σ → δ → Scanned β σ ρ} {s : σ} {d : δ} {r : ρ}
    (h : (f s d).result = some r) (ds : List δ) :
    feedAll letters f s (d :: ds) =
      ⟨some r, (f s d).rest ++ ds.flatMap letters, (f s d).state⟩ := by
  rw [feedAll, h]

lemma feedAll_singleton (letters : δ → List β) (f : σ → δ → Scanned β σ ρ) (s : σ) (d : δ) :
    feedAll letters f s [d] = f s d := by
  cases hr : (f s d).result with
  | none =>
    rw [feedAll_none hr, feedAll, List.append_nil, ← hr]
  | some r =>
    rw [feedAll_some hr, List.flatMap_nil, List.append_nil, ← hr]

/-- One more piece is read in the state behind the others. -/
lemma feedAll_snoc {letters : δ → List β} {f : σ → δ → Scanned β σ ρ} {s : σ} {ds : List δ}
    (h : (feedAll letters f s ds).result = none) (d : δ) :
    feedAll letters f s (ds ++ [d]) =
      ⟨(f (feedAll letters f s ds).state d).result,
        (feedAll letters f s ds).rest ++ (f (feedAll letters f s ds).state d).rest,
        (f (feedAll letters f s ds).state d).state⟩ := by
  induction ds generalizing s with
  | nil =>
    rw [List.nil_append]
    cases hr : (f s d).result with
    | none => simp [feedAll, hr]
    | some r => simp [feedAll, hr]
  | cons e ds ih =>
    cases hr : (f s e).result with
    | none =>
      rw [feedAll_none hr] at h ⊢
      rw [List.cons_append, feedAll_none hr, ih h, List.append_assoc]
    | some r =>
      rw [feedAll_some hr] at h
      cases h

/-- What holds of every piece and the state in which it is handed over. -/
def Along (Q : σ → δ → Prop) (f : σ → δ → Scanned β σ ρ) : σ → List δ → Prop
  | _, [] => True
  | s, d :: ds => Q s d ∧ ((f s d).result = none → Along Q f (f s d).state ds)

instance decidableAlong [DecidableEq ρ] (Q : σ → δ → Prop) [∀ s d, Decidable (Q s d)]
    (f : σ → δ → Scanned β σ ρ) : ∀ s ds, Decidable (Along Q f s ds)
  | _, [] => inferInstanceAs (Decidable True)
  | s, d :: ds =>
      have := decidableAlong Q f (f s d).state ds
      inferInstanceAs (Decidable (Q s d ∧ ((f s d).result = none → Along Q f (f s d).state ds)))

/-- On the states satisfying `P`, the reader `f` does with a piece that `Q` admits what the
loop of `step` does with its letters, as far as `g` shows. -/
structure Refines {τ : Type*} (P : σ → Prop) (Q : σ → δ → Prop) (g : σ → τ)
    (letters : δ → List β) (step : σ → β → Turn σ ρ) (f : σ → δ → Scanned β σ ρ) : Prop where
  respects : Respects g step
  run : ∀ s d, P s → Q s d → (f s d).map g = (scan step s (letters d)).map g
  keeps : ∀ s d, P s → Q s d → (f s d).result = none → P (f s d).state

/-- A reader that refines a loop reads the pieces of a list as the loop reads the letters
of their concatenation. -/
theorem Refines.feedAll {τ : Type*} {P : σ → Prop} {Q : σ → δ → Prop} {g : σ → τ}
    {letters : δ → List β} {step : σ → β → Turn σ ρ} {f : σ → δ → Scanned β σ ρ}
    (hf : Refines P Q g letters step f) {s : σ} (hs : P s) {ds : List δ} (hds : Along Q f s ds) :
    (feedAll letters f s ds).map g = (scan step s (ds.flatMap letters)).map g := by
  induction ds generalizing s with
  | nil => rfl
  | cons d ds ih =>
    obtain ⟨hd, hds⟩ := hds
    have hrun := hf.run s d hs hd
    simp only [Scanned.map, Scanned.mk.injEq] at hrun
    obtain ⟨hresult, hrest, hstate⟩ := hrun
    rw [List.flatMap_cons, scan_append]
    cases hr : (f s d).result with
    | none =>
      have htail := ih (hf.keeps s d hs hd hr) (hds hr)
      have hnil : (f s d).rest = [] :=
        hrest.trans (scan_drained step s (letters d) (hresult ▸ hr))
      have hstep : Lib.feedAll letters f s (d :: ds) = Lib.feedAll letters f (f s d).state ds := by
        rw [feedAll_none hr, hnil]
        rfl
      rw [hstep, htail, Scanned.resume_none (hresult ▸ hr)]
      exact hf.respects.scan hstate _
    | some r =>
      rw [feedAll_some hr, Scanned.resume_some (hresult ▸ hr)]
      simp only [Scanned.map, hrest, hstate]

lemma along_and {Q R : σ → δ → Prop} {f : σ → δ → Scanned β σ ρ} {s : σ} {ds : List δ} :
    Along (fun s d => Q s d ∧ R s d) f s ds ↔ Along Q f s ds ∧ Along R f s ds := by
  induction ds generalizing s with
  | nil => simp [Along]
  | cons d ds ih =>
    simp only [Along, ih]
    constructor
    · rintro ⟨⟨hq, hr⟩, h⟩
      exact ⟨⟨hq, fun hn => (h hn).1⟩, ⟨hr, fun hn => (h hn).2⟩⟩
    · rintro ⟨⟨hq, h1⟩, ⟨hr, h2⟩⟩
      exact ⟨⟨hq, hr⟩, fun hn => ⟨h1 hn, h2 hn⟩⟩

lemma along_of_forall {Q : σ → δ → Prop} {f : σ → δ → Scanned β σ ρ} {ds : List δ}
    (h : ∀ d ∈ ds, ∀ s, Q s d) (s : σ) : Along Q f s ds := by
  induction ds generalizing s with
  | nil => trivial
  | cons d ds ih =>
    exact ⟨h d List.mem_cons_self s, fun _ => ih (fun e he => h e (List.mem_cons_of_mem d he)) _⟩

end Feed

end PionCore.Lib
