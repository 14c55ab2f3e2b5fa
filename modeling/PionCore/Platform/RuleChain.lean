/-
# Rule chains

`RuleChain` is a list of comparisons, of which all or at least one must hold for an event to pass.
A comparison that has been disabled is left out, and so is one whose regular expression cannot be
searched in the event.  `FilterReactor` delivers the events that pass.

The options of the base class `Reactor` are not part of the model.
-/
import PionCore.Platform.ConfigManager
import PionCore.Platform.TransformReactor

namespace PionCore.Platform

open PionCore.Lib

variable {φ δ χ θ ρ : Type*}

/-- The exceptions of `RuleChain::setConfig`. -/
inductive RuleError where
  | emptyTerm
  | unknownTerm (termId : Bytes)
  | emptyType
  | unknownComparisonType (name : Bytes)
  | emptyValue
  | configure (error : ConfigureError)
deriving DecidableEq

structure RuleChain (φ δ χ θ ρ : Type*) where
  comparisons : List (Comparison φ δ χ θ ρ) := []
  matchAllComparisons : Bool := false

namespace RuleChain

def comparisonElementName : Bytes := ascii "Comparison"
def termElementName : Bytes := ascii "Term"
def typeElementName : Bytes := ascii "Type"
def valueElementName : Bytes := ascii "Value"
def matchAllValuesElementName : Bytes := ascii "MatchAllValues"
def matchAllComparisonsElementName : Bytes := ascii "MatchAllComparisons"

/-! ### Configuration -/

variable (lib : ComparisonLibrary φ δ χ θ ρ)

/-- `getConfigOptionEmptyOk` -/
def getOptionEmptyOk (config : Config) (name : Bytes) : Option Bytes :=
  if config.hasName name then some ((config.getOption name).getD []) else none

/-- The comparison that the children of a `Comparison` element configure. -/
def comparisonOf (v : Vocabulary) (config : Config) :
    Except RuleError (Comparison φ δ χ θ ρ) :=
  match config.getOption termElementName with
  | none => .error .emptyTerm
  | some termId =>
    if v.findTerm termId = 0 then .error (.unknownTerm termId)
    else
      match config.getOption typeElementName with
      | none => .error .emptyType
      | some name =>
        match parseComparisonType name with
        | none => .error (.unknownComparisonType name)
        | some type =>
          let value := getOptionEmptyOk config valueElementName
          if type.requiresValue = true ∧ value = none then .error .emptyValue
          else
            match (Comparison.new lib (v.get (v.findTerm termId)) false).configure lib type
              (if type.requiresValue then value.getD [] else [])
              (config.getOption matchAllValuesElementName = some (ascii "true")) with
            | (_, some error) => .error (.configure error)
            | (comparison, none) => .ok comparison

/-- The loop of `setConfig`; the comparisons in front of a wrong one stay. -/
def addComparisons (v : Vocabulary) (chain : RuleChain φ δ χ θ ρ) :
    Config → RuleChain φ δ χ θ ρ × Option RuleError
  | [] => (chain, none)
  | node :: nodes =>
    if node.isNamed comparisonElementName then
      match comparisonOf lib v node.children with
      | .error error => (chain, some error)
      | .ok comparison =>
        addComparisons v { chain with comparisons := chain.comparisons ++ [comparison] } nodes
    else addComparisons v chain nodes

/-- `setConfig` -/
def setConfig (v : Vocabulary) (config : Config) : RuleChain φ δ χ θ ρ × Option RuleError :=
  addComparisons lib v
    { matchAllComparisons :=
        config.getOption matchAllComparisonsElementName = some (ascii "true") } config

/-- The loop of `updateVocabulary`; the comparisons behind one that throws stay as they are. -/
def updateAll (v : Vocabulary) :
    List (Comparison φ δ χ θ ρ) → List (Comparison φ δ χ θ ρ) × Option VocabularyError
  | [] => ([], none)
  | c :: cs =>
    match c.updateVocabulary v with
    | .error error => (c :: cs, some error)
    | .ok c' => (c' :: (updateAll v cs).1, (updateAll v cs).2)

def updateVocabulary (chain : RuleChain φ δ χ θ ρ) (v : Vocabulary) :
    RuleChain φ δ χ θ ρ × Option VocabularyError :=
  ({ chain with comparisons := (updateAll v chain.comparisons).1 },
    (updateAll v chain.comparisons).2)

/-! ### Evaluation -/

/-- The loops of `operator()`, which end at the first comparison with the result `stop`.  Of an
exception only `RegexFailure` is caught. -/
def evaluateUntil (stop : Bool) (eventType : ℕ) (e : Event φ δ χ θ) :
    List (Comparison φ δ χ θ ρ) → List (Comparison φ δ χ θ ρ) × Except EvaluateError Bool
  | [] => ([], .ok ! stop)
  | c :: cs =>
    if c.running then
      match c.evaluate lib eventType e with
      | .ok b =>
        if b = stop then (c :: cs, .ok stop)
        else
          (c.evaluated lib eventType e :: (evaluateUntil stop eventType e cs).1,
            (evaluateUntil stop eventType e cs).2)
      | .error .regexFailure =>
        (c.evaluated lib eventType e :: (evaluateUntil stop eventType e cs).1,
          (evaluateUntil stop eventType e cs).2)
      | .error error => (c.evaluated lib eventType e :: cs, .error error)
    else (c :: (evaluateUntil stop eventType e cs).1, (evaluateUntil stop eventType e cs).2)

/-- `operator()` -/
def passes (chain : RuleChain φ δ χ θ ρ) (eventType : ℕ) (e : Event φ δ χ θ) :
    RuleChain φ δ χ θ ρ × Except EvaluateError Bool :=
  if chain.comparisons.isEmpty then (chain, .ok true)
  else
    let result := evaluateUntil lib (! chain.matchAllComparisons) eventType e chain.comparisons
    ({ chain with comparisons := result.1 }, result.2)

/-- The rules as they are configured: nothing is disabled, and a comparison that cannot be searched
for does not count. -/
def holds (chain : RuleChain φ δ χ θ ρ) (eventType : ℕ) (e : Event φ δ χ θ) : Bool :=
  chain.comparisons.isEmpty ||
    if chain.matchAllComparisons then
      chain.comparisons.all fun c => c.evaluate lib eventType e ≠ .ok false
    else chain.comparisons.any fun c => c.evaluate lib eventType e = .ok true

end RuleChain

/-! ### Filters -/

/-- `FilterReactor`, with the events that it has delivered. -/
structure FilterReactor (φ δ χ θ ρ : Type*) where
  rules : RuleChain φ δ χ θ ρ := {}
  delivered : List (ℕ × Event φ δ χ θ) := []

inductive FilterStep (φ δ χ θ : Type*) where
  | setConfig (v : Vocabulary) (config : Config)
  | updateVocabulary (v : Vocabulary)
  /-- an event of a type -/
  | process (eventType : ℕ) (e : Event φ δ χ θ)

namespace FilterReactor

variable (lib : ComparisonLibrary φ δ χ θ ρ)

/-- A step leaves the reactor behind, also when it throws. -/
def step (r : FilterReactor φ δ χ θ ρ) : FilterStep φ δ χ θ → FilterReactor φ δ χ θ ρ
  | .setConfig v config => { r with rules := (RuleChain.setConfig lib v config).1 }
  | .updateVocabulary v => { r with rules := (r.rules.updateVocabulary v).1 }
  | .process eventType e =>
    match r.rules.passes lib eventType e with
    | (rules, .ok true) => { rules := rules, delivered := r.delivered ++ [(eventType, e)] }
    | (rules, _) => { r with rules := rules }

/-- Events have values of the types of the terms, and a vocabulary does not change the type of a
term of the rules. -/
def Typed : RuleChain φ δ χ θ ρ → List (FilterStep φ δ χ θ) → Prop
  | _, [] => True
  | _, .setConfig v config :: steps => Typed (RuleChain.setConfig lib v config).1 steps
  | chain, .updateVocabulary v :: steps =>
    (∀ c ∈ chain.comparisons, ∀ t, v.refreshTerm c.term = .ok t →
      t.termType = c.term.termType) ∧ Typed (chain.updateVocabulary v).1 steps
  | chain, .process _ e :: steps =>
    (SortedMultimap.Sorted e ∧ ∀ c ∈ chain.comparisons, ∀ p ∈ e, p.1 = c.term.termRef →
      c.term.termType.eventAlternative = some p.2.alternative) ∧ Typed chain steps

end FilterReactor

/-! ### Configured rules -/

namespace RuleChain

variable {lib : ComparisonLibrary φ δ χ θ ρ}

lemma convertValue_running {c c' : Comparison φ δ χ θ ρ} {value : Bytes}
    (h : c.convertValue lib value = some c') : c'.running = c.running := by
  rw [Comparison.convertValue] at h
  cases htype : c.term.termType
  all_goals rw [htype] at h
  all_goals
    first
    | obtain ⟨v, -, rfl⟩ := Option.map_eq_some_iff.1 h
      rfl
    | obtain rfl := Option.some.inj h
      rfl

lemma setValue_running {c : Comparison φ δ χ θ ρ} {type : ComparisonType} {value : Bytes} :
    (c.setValue lib type value).1.running = c.running := by
  rw [Comparison.setValue]
  split_ifs
  · cases lib.makeRegex value <;> rfl
  · rcases type.functor (LogCodec.cString value) with _ | _ | f
    · rfl
    · rfl
    · dsimp only
      split_ifs <;> rfl
  · cases hconvert : c.convertValue lib value with
    | none => rfl
    | some d => exact convertValue_running hconvert
  · rfl

/-- A comparison is running until a search fails. -/
lemma configure_running {c c' : Comparison φ δ χ θ ρ} {type : ComparisonType} {value : Bytes}
    {matchAllValues : Bool} (h : c.configure lib type value matchAllValues = (c', none)) :
    c'.running = c.running := by
  rw [Comparison.configure] at h
  split_ifs at h
  · cases h
  · cases h
  have hset : (c.setValue lib type value).1.running = c.running := setValue_running
  rcases hvalue : c.setValue lib type value with ⟨d, error⟩
  rw [hvalue] at h hset
  cases error with
  | some error => cases h
  | none =>
    cases h
    exact hset

lemma fits_of_configure {c c' : Comparison φ δ χ θ ρ} {type : ComparisonType} {value : Bytes}
    {matchAllValues : Bool} (h : c.configure lib type value matchAllValues = (c', none)) :
    c'.Fits ∧ c'.type.checkForValidType c'.term.termType = true := by
  have hcall : c.configureWith lib (.string type value matchAllValues) = (c', none) := h
  exact Comparison.fits_of_configureWith hcall

/-- What `setConfig` makes, but for the flag that a failed search clears. -/
structure Configured (c d : Comparison φ δ χ θ ρ) : Prop where
  running : c.running = true
  fits : c.Fits
  valid : c.type.checkForValidType c.term.termType = true
  same : ∃ running, d = { c with running := running }

lemma configured_of_comparisonOf {v : Vocabulary} {config : Config} {c : Comparison φ δ χ θ ρ}
    (h : comparisonOf lib v config = .ok c) : Configured c c := by
  rw [comparisonOf] at h
  split at h
  · cases h
  rename_i termId hterm
  split_ifs at h with hfind
  split at h
  · cases h
  rename_i name hname
  split at h
  · cases h
  rename_i type htype
  dsimp only at h
  split at h
  · cases h
  split at h
  · cases h
  rename_i comparison hconfigure
  obtain rfl := Except.ok.inj h
  obtain ⟨hfits, hvalid⟩ := fits_of_configure hconfigure
  exact ⟨configure_running hconfigure, hfits, hvalid, comparison.running, rfl⟩

lemma addComparisons_configured {v : Vocabulary} {chain : RuleChain φ δ χ θ ρ} {config : Config}
    (h : ∀ c ∈ chain.comparisons, Configured c c) :
    (∀ c ∈ (addComparisons lib v chain config).1.comparisons, Configured c c) ∧
      (addComparisons lib v chain config).1.matchAllComparisons = chain.matchAllComparisons := by
  induction config generalizing chain with
  | nil => exact ⟨h, rfl⟩
  | cons node nodes ih =>
    rw [addComparisons]
    split_ifs
    · split
      · exact ⟨h, rfl⟩
      · rename_i comparison hcomparison
        refine ih fun c hc => ?_
        rcases List.mem_append.1 hc with hc | hc
        · exact h c hc
        · obtain rfl := List.mem_singleton.1 hc
          exact configured_of_comparisonOf hcomparison
    · exact ih h

/-- Whatever `setConfig` does, it leaves comparisons that can be evaluated. -/
lemma setConfig_configured (v : Vocabulary) (config : Config) :
    (∀ c ∈ (setConfig lib v config).1.comparisons, Configured c c) ∧
      ((setConfig lib v config).1.matchAllComparisons = true ↔
        config.getOption matchAllComparisonsElementName = some (ascii "true")) := by
  let chain : RuleChain φ δ χ θ ρ :=
    { matchAllComparisons := config.getOption matchAllComparisonsElementName = some (ascii "true") }
  have hempty : ∀ c ∈ chain.comparisons, Configured c c := fun c hc => absurd hc List.not_mem_nil
  have ⟨hall, hmatch⟩ : (∀ c ∈ (addComparisons lib v chain config).1.comparisons, Configured c c) ∧
      (addComparisons lib v chain config).1.matchAllComparisons = chain.matchAllComparisons :=
    addComparisons_configured hempty
  refine ⟨hall, ?_⟩
  rw [setConfig, hmatch, decide_eq_true_iff]

end RuleChain

namespace RuleChain

variable {lib : ComparisonLibrary φ δ χ θ ρ} {stop : Bool} {eventType : ℕ} {e : Event φ δ χ θ}
  {c : Comparison φ δ χ θ ρ} {cs ds : List (Comparison φ δ χ θ ρ)}

/-- A comparison that suits the event is evaluated, or its regular expression cannot be searched. -/
lemma Configured.evaluate {d : Comparison φ δ χ θ ρ} (h : Configured c d)
    (hsorted : SortedMultimap.Sorted e)
    (htyped : ∀ p ∈ e, p.1 = c.term.termRef →
      c.term.termType.eventAlternative = some p.2.alternative) :
    (∃ b, c.evaluate lib eventType e = .ok b) ∨
      c.evaluate lib eventType e = .error .regexFailure := by
  have hrange : ∀ u ∈ Comparison.valuesRange e c.term.termRef,
      c.term.termType.eventAlternative = some u.alternative := by
    intro u hu
    rw [Comparison.valuesRange, hsorted.range_eq] at hu
    obtain ⟨p, hp, rfl⟩ := List.mem_map.1 hu
    obtain ⟨hmem, hkey⟩ := List.mem_filter.1 hp
    exact htyped p hmem (of_decide_eq_true hkey)
  cases hresult : c.evaluate lib eventType e with
  | ok b => exact Or.inl ⟨b, rfl⟩
  | error error =>
    rw [Comparison.evaluate] at hresult
    split_ifs at hresult
    obtain ⟨rfl, -⟩ := h.fits.evaluateRange hrange hresult
    exact Or.inr rfl

/-- Where the loop ends, whatever has been disabled, some comparison has this result. -/
lemma evaluateUntil_spec (stop : Bool) (h : List.Forall₂ Configured cs ds)
    (heval : ∀ c ∈ cs, (∃ b, c.evaluate lib eventType e = .ok b) ∨
      c.evaluate lib eventType e = .error .regexFailure) :
    ∃ es b, evaluateUntil lib stop eventType e ds = (es, .ok b) ∧ List.Forall₂ Configured cs es ∧
      (b = stop → ∃ c ∈ cs, c.evaluate lib eventType e = .ok stop) := by
  induction h with
  | nil => exact ⟨[], ! stop, rfl, .nil, fun hb => by cases stop <;> cases hb⟩
  | @cons c d cs ds hcd hrest ih =>
    obtain ⟨es, b, hloop, hes, hb⟩ := ih fun c hc => heval c (List.mem_cons_of_mem _ hc)
    obtain ⟨running, rfl⟩ := hcd.same
    have hsame : Comparison.evaluate lib { c with running := running } eventType e =
        c.evaluate lib eventType e := rfl
    have hrest' (hstop : b = stop) :
        ∃ c' ∈ c :: cs, c'.evaluate lib eventType e = .ok stop := by
      obtain ⟨c', hc', heq⟩ := hb hstop
      exact ⟨c', List.mem_cons_of_mem _ hc', heq⟩
    have hflag : Configured c
        (Comparison.evaluated lib { c with running := running } eventType e) := by
      refine ⟨hcd.running, hcd.fits, hcd.valid, ?_⟩
      rw [Comparison.evaluated]
      split_ifs
      · exact ⟨false, rfl⟩
      · exact ⟨running, rfl⟩
    rw [evaluateUntil, hsame, hloop]
    -- a disabled comparison is passed over, as one whose search fails is
    cases running with
    | false => exact ⟨_, b, if_neg Bool.false_ne_true, .cons hcd hes, hrest'⟩
    | true =>
      rw [if_pos rfl]
      rcases heval c List.mem_cons_self with ⟨r, hr⟩ | hfailure
      · rw [hr]
        dsimp only
        by_cases hstop : r = stop
        · subst hstop
          exact ⟨_, r, if_pos rfl, .cons hcd hrest, fun _ => ⟨c, List.mem_cons_self, hr⟩⟩
        · exact ⟨_, b, if_neg hstop, .cons hflag hes, hrest'⟩
      · rw [hfailure]
        exact ⟨_, b, rfl, .cons hflag hes, hrest'⟩

/-- An update of the vocabulary keeps the comparisons whose terms keep their types. -/
lemma updateAll_configured {v : Vocabulary} (h : List.Forall₂ Configured cs ds)
    (hkeep : ∀ c ∈ cs, ∀ t, v.refreshTerm c.term = .ok t → t.termType = c.term.termType) :
    List.Forall₂ Configured (updateAll v cs).1 (updateAll v ds).1 := by
  induction h with
  | nil => exact .nil
  | @cons c d cs ds hcd hrest ih =>
    obtain ⟨running, rfl⟩ := hcd.same
    have hsame : Comparison.updateVocabulary { c with running := running } v =
        (v.refreshTerm c.term).map fun term => { c with running := running, term := term } := rfl
    rw [updateAll, updateAll, hsame, Comparison.updateVocabulary]
    cases hterm : v.refreshTerm c.term with
    | error error => exact .cons hcd hrest
    | ok t =>
      have htype := hkeep c List.mem_cons_self t hterm
      have hvalid : c.type.checkForValidType t.termType = true := by
        rw [htype]
        exact hcd.valid
      refine .cons ⟨hcd.running, ?_, hvalid, running, rfl⟩
        (ih fun c hc => hkeep c (List.mem_cons_of_mem _ hc))
      exact hcd.fits.of_term rfl rfl rfl hvalid fun _ => by rw [htype]

/-- The rules of a reactor are those that are configured, some of which are disabled. -/
structure Follows (chain rules : RuleChain φ δ χ θ ρ) : Prop where
  comparisons : List.Forall₂ Configured chain.comparisons rules.comparisons
  matchAll : rules.matchAllComparisons = chain.matchAllComparisons

lemma Follows.setConfig (v : Vocabulary) (config : Config) :
    Follows (setConfig lib v config).1 (setConfig lib v config).1 :=
  ⟨List.forall₂_same.2 (setConfig_configured v config).1, rfl⟩

variable {chain rules : RuleChain φ δ χ θ ρ}

lemma Follows.updateVocabulary (h : Follows chain rules) {v : Vocabulary}
    (hkeep : ∀ c ∈ chain.comparisons, ∀ t, v.refreshTerm c.term = .ok t →
      t.termType = c.term.termType) :
    Follows (chain.updateVocabulary v).1 (rules.updateVocabulary v).1 :=
  ⟨updateAll_configured h.comparisons hkeep, h.matchAll⟩

/-- What an event that suits the rules does. -/
lemma Follows.passes (h : Follows chain rules)
    (heval : ∀ c ∈ chain.comparisons, (∃ b, c.evaluate lib eventType e = .ok b) ∨
      c.evaluate lib eventType e = .error .regexFailure) :
    ∃ rules' b, rules.passes lib eventType e = (rules', .ok b) ∧ Follows chain rules' ∧
      (chain.matchAllComparisons = true → chain.holds lib eventType e = true → b = true) ∧
      (chain.matchAllComparisons = false → b = true → chain.holds lib eventType e = true) ∧
      (chain.comparisons = [] → b = true ∧ chain.holds lib eventType e = true) := by
  by_cases hempty : chain.comparisons = []
  · have hrules : rules.comparisons = [] := by
      have hboth := h.comparisons
      rw [hempty] at hboth
      exact List.forall₂_nil_left_iff.1 hboth
    have hholds : chain.holds lib eventType e = true := by
      rw [holds, hempty]
      rfl
    refine ⟨rules, true, ?_, h, fun _ _ => rfl, fun _ _ => hholds, fun _ => ⟨rfl, hholds⟩⟩
    rw [RuleChain.passes, hrules]
    rfl
  · have hne : rules.comparisons.isEmpty = false := by
      rw [List.isEmpty_eq_false_iff]
      intro hrules
      have hboth := h.comparisons
      rw [hrules] at hboth
      exact hempty (List.forall₂_nil_right_iff.1 hboth)
    have hchain : chain.comparisons.isEmpty = false := List.isEmpty_eq_false_iff.2 hempty
    obtain ⟨es, b, hloop, hes, hb⟩ :=
      evaluateUntil_spec (! rules.matchAllComparisons) h.comparisons heval
    refine ⟨{ rules with comparisons := es }, b, ?_, ⟨hes, h.matchAll⟩, fun hall hholds => ?_,
      fun hany htrue => ?_, fun hnone => absurd hnone hempty⟩
    · rw [RuleChain.passes, hne, if_neg Bool.false_ne_true, hloop]
    · rw [h.matchAll, hall] at hb
      rw [holds, hchain, Bool.false_or, if_pos hall, List.all_eq_true] at hholds
      by_contra hfalse
      obtain ⟨c, hc, heq⟩ := hb (Bool.eq_false_iff.2 hfalse)
      exact (decide_eq_true_iff.1 (hholds c hc)) heq
    · rw [h.matchAll, hany] at hb
      obtain ⟨c, hc, heq⟩ := hb htrue
      rw [holds, hchain, Bool.false_or, if_neg (by rw [hany]; exact Bool.false_ne_true),
        List.any_eq_true]
      exact ⟨c, hc, decide_eq_true_iff.2 heq⟩

end RuleChain

namespace FilterReactor

open RuleChain

variable {lib : ComparisonLibrary φ δ χ θ ρ} {chain : RuleChain φ δ χ θ ρ}
  {r : FilterReactor φ δ χ θ ρ} {steps : List (FilterStep φ δ χ θ)}

/-- The rules behind a step, as they are configured. -/
def configuredBy (lib : ComparisonLibrary φ δ χ θ ρ) (chain : RuleChain φ δ χ θ ρ) :
    FilterStep φ δ χ θ → RuleChain φ δ χ θ ρ
  | .setConfig v config => (RuleChain.setConfig lib v config).1
  | .updateVocabulary v => (chain.updateVocabulary v).1
  | .process _ _ => chain

/-- The rules of a chain that is empty, or of one kind. -/
def IsKind (all : Bool) (chain : RuleChain φ δ χ θ ρ) : Prop :=
  chain.comparisons = [] ∨ chain.matchAllComparisons = all

/-- A step keeps the kind of the rules, unless it configures others. -/
lemma IsKind.step {all : Bool} (h : IsKind all chain) {first : FilterStep φ δ χ θ}
    (hconfig : ∀ v config, first = .setConfig v config →
      (config.getOption matchAllComparisonsElementName = some (ascii "true") ↔ all = true)) :
    IsKind all (configuredBy lib chain first) := by
  cases first with
  | setConfig v config =>
    exact Or.inr (Bool.eq_iff_iff.2
      ((setConfig_configured v config).2.trans (hconfig v config rfl)))
  | updateVocabulary v =>
    refine h.imp (fun hempty => ?_) fun hall => hall
    rw [configuredBy, RuleChain.updateVocabulary, hempty]
    rfl
  | process => exact h

end FilterReactor

end PionCore.Platform
