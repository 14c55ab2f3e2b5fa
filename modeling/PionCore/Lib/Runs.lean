/-
# Runs

A system is given by its steps: in a state, an event either leads to another state, or cannot
happen.  A run is a list of events that happen one after the other.  What holds at the start and
is kept by every step holds behind every run.
-/
import Mathlib.Data.List.Induction

namespace PionCore.Lib

variable {σ ε : Type*} (step : σ → ε → Option σ)

/-- The state behind a run, if all of its events can happen. -/
def run (s : σ) : List ε → Option σ
  | [] => some s
  | e :: es => (step s e).bind fun s' => run s' es

@[simp] lemma run_nil (s : σ) : run step s [] = some s := rfl

lemma run_cons (s : σ) (e : ε) (es : List ε) :
    run step s (e :: es) = (step s e).bind fun s' => run step s' es := rfl

lemma run_append (s : σ) (es fs : List ε) :
    run step s (es ++ fs) = (run step s es).bind fun s' => run step s' fs := by
  induction es generalizing s with
  | nil => rfl
  | cons e es ih =>
    rw [List.cons_append, run_cons, run_cons, Option.bind_assoc]
    exact congrArg _ (funext ih)

/-- The last step of a run. -/
lemma run_snoc {s s'' : σ} {es : List ε} {e : ε} :
    run step s (es ++ [e]) = some s'' ↔ ∃ s', run step s es = some s' ∧ step s' e = some s'' := by
  rw [run_append, Option.bind_eq_some_iff]
  simp only [run_cons, run_nil, Option.bind_fun_some]

variable {step}

/-- What a run may depend on: the events that have happened, and the state behind them. -/
theorem run_induction {s : σ} {P : List ε → σ → Prop} (hstart : P [] s)
    (hstep : ∀ es e s' s'', run step s es = some s' → P es s' → step s' e = some s'' →
      P (es ++ [e]) s'') {es : List ε} {s' : σ} (h : run step s es = some s') : P es s' := by
  induction es using List.reverseRecOn generalizing s' with
  | nil =>
    obtain rfl : s = s' := Option.some.inj h
    exact hstart
  | append_singleton es e ih =>
    obtain ⟨u, hu, he⟩ := (run_snoc step).1 h
    exact hstep es e u s' hu (ih hu) he

/-- An invariant holds behind every run. -/
theorem run_invariant {P : σ → Prop} (hstep : ∀ s e s', P s → step s e = some s' → P s') {s s' : σ}
    (hs : P s) {es : List ε} (h : run step s es = some s') : P s' :=
  run_induction (P := fun _ t => P t) hs (fun _ e t t' _ ht he => hstep t e t' ht he) h

/-! ### The events of a run -/

variable (step)

/-- In a run, the event happens in the state `u`. -/
def HappensIn (s : σ) (es : List ε) (e : ε) (u : σ) : Prop :=
  ∃ before after, es = before ++ e :: after ∧ run step s before = some u

variable {step}

lemma not_happensIn_nil {s u : σ} {e : ε} : ¬ HappensIn step s [] e u := by
  rintro ⟨before, after, hnil, -⟩
  simp at hnil

/-- The events of a longer run. -/
lemma happensIn_snoc {s u : σ} {es : List ε} {e f : ε} :
    HappensIn step s (es ++ [f]) e u ↔
      HappensIn step s es e u ∨ f = e ∧ run step s es = some u := by
  constructor
  · rintro ⟨before, after, heq, hrun⟩
    rcases List.eq_nil_or_concat after with rfl | ⟨after, g, rfl⟩
    · obtain ⟨rfl, hlast⟩ := List.append_inj' heq rfl
      exact Or.inr ⟨by simpa using hlast, hrun⟩
    · have hinit : es ++ [f] = (before ++ e :: after) ++ [g] := by simpa using heq
      exact Or.inl ⟨before, after, (List.append_inj' hinit rfl).1, hrun⟩
  · rintro (⟨before, after, rfl, hrun⟩ | ⟨rfl, hrun⟩)
    · exact ⟨before, after ++ [f], by simp, hrun⟩
    · exact ⟨es, [], rfl, hrun⟩

/-- An event of a run is followed by the state it leads to. -/
lemma HappensIn.next {s s' u : σ} {es : List ε} {e : ε} (h : HappensIn step s es e u)
    (hrun : run step s es = some s') : ∃ before after u', es = before ++ e :: after ∧
      run step s before = some u ∧ step u e = some u' ∧ run step s (before ++ [e]) = some u' := by
  obtain ⟨before, after, rfl, hu⟩ := h
  rw [run_append, hu, Option.bind_some, run_cons, Option.bind_eq_some_iff] at hrun
  obtain ⟨u', hu', -⟩ := hrun
  exact ⟨before, after, u', rfl, hu, hu', (run_snoc step).2 ⟨u, hu, hu'⟩⟩

/-- The events of the first part of a run happen in the run. -/
lemma HappensIn.append {s u : σ} {es : List ε} {e : ε} (h : HappensIn step s es e u)
    (fs : List ε) : HappensIn step s (es ++ fs) e u := by
  obtain ⟨before, after, rfl, hu⟩ := h
  exact ⟨before, after ++ fs, by simp, hu⟩

/-- The first event of a run. -/
lemma happensIn_cons {s u : σ} {es : List ε} {e f : ε} :
    HappensIn step s (f :: es) e u ↔
      e = f ∧ u = s ∨ ∃ s', step s f = some s' ∧ HappensIn step s' es e u := by
  constructor
  · rintro ⟨_ | ⟨g, before⟩, after, heq, hrun⟩
    · obtain ⟨rfl, rfl⟩ := List.cons.inj heq
      exact Or.inl ⟨rfl, (Option.some.inj hrun).symm⟩
    · obtain ⟨rfl, rfl⟩ := List.cons.inj heq
      rw [run_cons, Option.bind_eq_some_iff] at hrun
      obtain ⟨s', hs', hrun⟩ := hrun
      exact Or.inr ⟨s', hs', before, after, rfl, hrun⟩
  · rintro (⟨rfl, rfl⟩ | ⟨s', hs', before, after, rfl, hrun⟩)
    · exact ⟨[], es, rfl, rfl⟩
    · exact ⟨f :: before, after, rfl, by rw [run_cons, hs', Option.bind_some, hrun]⟩

variable (step)

/-- Every event of a run meets a condition, in the state in which it happens. -/
def meets (Q : ε → σ → Bool) : σ → List ε → Bool
  | _, [] => true
  | s, e :: es => Q e s && ((step s e).map fun s' => meets Q s' es).getD true

variable {step}

lemma meets_iff {Q : ε → σ → Bool} {s : σ} {es : List ε} :
    meets step Q s es = true ↔ ∀ e u, HappensIn step s es e u → Q e u = true := by
  induction es generalizing s with
  | nil => exact ⟨fun _ _ _ h => absurd h not_happensIn_nil, fun _ => rfl⟩
  | cons f es ih =>
    rw [meets, Bool.and_eq_true]
    constructor
    · rintro ⟨hQ, hrest⟩ e u hu
      rcases happensIn_cons.1 hu with ⟨rfl, rfl⟩ | ⟨s', hs', hu⟩
      · exact hQ
      · rw [hs', Option.map_some, Option.getD_some] at hrest
        exact ih.1 hrest e u hu
    · intro hall
      refine ⟨hall f s (happensIn_cons.2 (Or.inl ⟨rfl, rfl⟩)), ?_⟩
      cases hs' : step s f with
      | none => rfl
      | some s' =>
        exact ih.2 fun e u hu => hall e u (happensIn_cons.2 (Or.inr ⟨s', hs', hu⟩))

variable (step)

/-- A run comes to the state `u`. -/
def ReachedIn (s : σ) (es : List ε) (u : σ) : Prop :=
  ∃ before after, es = before ++ after ∧ run step s before = some u

variable {step}

/-- An invariant that every step keeps which meets a condition. -/
theorem reached_invariant {s s' : σ} {P : σ → Prop} {Q : ε → σ → Prop} (hs : P s)
    (hstep : ∀ u e u', P u → Q e u → step u e = some u' → P u') {es : List ε}
    (hQ : ∀ e u, HappensIn step s es e u → Q e u) (h : run step s es = some s') : P s' := by
  refine run_induction (P := fun es t => (∀ e u, HappensIn step s es e u → Q e u) → P t)
    (fun _ => hs) ?_ h hQ
  intro es e t t' hrun ih ht hQ
  have hbefore := ih fun f u hu => hQ f u (happensIn_snoc.2 (Or.inl hu))
  exact hstep t e t' hbefore (hQ e t (happensIn_snoc.2 (Or.inr ⟨rfl, hrun⟩))) ht

/-- If a condition on the steps is what keeps an invariant, then the invariant holds in every
state of a run if and only if every step meets the condition. -/
theorem reached_iff {s s' : σ} {P : σ → Prop} {Q : ε → σ → Prop} (hs : P s)
    (hstep : ∀ u e u', P u → step u e = some u' → (P u' ↔ Q e u)) {es : List ε}
    (h : run step s es = some s') :
    (∀ u, ReachedIn step s es u → P u) ↔ ∀ e u, HappensIn step s es e u → Q e u := by
  constructor
  · intro hall e u hu
    obtain ⟨before, after, u', rfl, hbefore, he, hsnoc⟩ := hu.next h
    exact (hstep u e u' (hall u ⟨before, e :: after, rfl, hbefore⟩) he).1
      (hall u' ⟨before ++ [e], after, by simp, hsnoc⟩)
  · rintro hQ u ⟨before, after, rfl, hu⟩
    exact reached_invariant hs (fun v e v' hv he hstep' => (hstep v e v' hv hstep').2 he)
      (fun e v hv => hQ e v (hv.append after)) hu

/-- If a condition on the steps is what keeps a property `P`, and to say `K` about each step, then
both are the case in the whole run if and only if every step meets the condition.  A step that meets
it may keep more than `P`. -/
theorem steps_iff_of_invariant {s s' : σ} {P I : σ → Prop} {K : ε → σ → σ → Prop}
    {Q : ε → σ → Prop} (hs : I s) (hI : ∀ u, I u → P u)
    (hkeeps : ∀ u e u', I u → step u e = some u' → Q e u → I u' ∧ K e u u')
    (honly : ∀ u e u', I u → step u e = some u' → P u' → K e u u' → Q e u) {es : List ε}
    (h : run step s es = some s') :
    ((∀ u, ReachedIn step s es u → P u) ∧
        ∀ e u u', HappensIn step s es e u → step u e = some u' → K e u u') ↔
      ∀ e u, HappensIn step s es e u → Q e u := by
  have hreached (hQ : ∀ e u, HappensIn step s es e u → Q e u) :
      ∀ u, ReachedIn step s es u → I u := by
    rintro u ⟨before, after, rfl, hu⟩
    exact reached_invariant hs (fun v e v' hv he hstep => (hkeeps v e v' hv hstep he).1)
      (fun e v hv => hQ e v (hv.append after)) hu
  have hhappens {e : ε} {u : σ} (hu : HappensIn step s es e u) : ReachedIn step s es u := by
    obtain ⟨before, after, heq, hrun⟩ := hu
    exact ⟨before, e :: after, heq, hrun⟩
  constructor
  · rintro ⟨hall, hK⟩
    refine run_induction
      (P := fun es t => (∀ u, ReachedIn step s es u → P u) →
        (∀ e u u', HappensIn step s es e u → step u e = some u' → K e u u') →
        I t ∧ ∀ e u, HappensIn step s es e u → Q e u)
      (fun _ _ => ⟨hs, fun e u hu => absurd hu not_happensIn_nil⟩) ?_ h hall hK |>.2
    intro es e t t' hrun ih ht hall hK
    obtain ⟨hinv, hQ⟩ := ih
      (fun u ⟨before, after, heq, hu⟩ => hall u ⟨before, after ++ [e], by simp [heq], hu⟩)
      (fun f u u' hu => hK f u u' (happensIn_snoc.2 (Or.inl hu)))
    have hlast : HappensIn step s (es ++ [e]) e t := happensIn_snoc.2 (Or.inr ⟨rfl, hrun⟩)
    have hP : P t' := hall t' ⟨es ++ [e], [], by simp, (run_snoc step).2 ⟨t, hrun, ht⟩⟩
    have he := honly t e t' hinv ht hP (hK e t t' hlast ht)
    refine ⟨(hkeeps t e t' hinv ht he).1, fun f u hu => ?_⟩
    rcases happensIn_snoc.1 hu with hbefore | ⟨rfl, htu⟩
    · exact hQ f u hbefore
    · obtain rfl : t = u := Option.some.inj (hrun.symm.trans htu)
      exact he
  · intro hQ
    refine ⟨fun u hu => hI u (hreached hQ u hu), fun e u u' hu he => ?_⟩
    exact (hkeeps u e u' (hreached hQ u (hhappens hu)) he (hQ e u hu)).2

/-- The same when a step that meets the condition keeps no more than the property. -/
theorem steps_iff {s s' : σ} {P : σ → Prop} {K : ε → σ → σ → Prop} {Q : ε → σ → Prop} (hs : P s)
    (hstep : ∀ u e u', P u → step u e = some u' → (P u' ∧ K e u u' ↔ Q e u)) {es : List ε}
    (h : run step s es = some s') :
    ((∀ u, ReachedIn step s es u → P u) ∧
        ∀ e u u', HappensIn step s es e u → step u e = some u' → K e u u') ↔
      ∀ e u, HappensIn step s es e u → Q e u :=
  steps_iff_of_invariant hs (fun _ hu => hu) (fun u e u' hu he => (hstep u e u' hu he).2)
    (fun u e u' hu he hP hK => (hstep u e u' hu he).1 ⟨hP, hK⟩) h

end PionCore.Lib
