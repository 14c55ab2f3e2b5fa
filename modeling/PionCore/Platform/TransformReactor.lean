/-
# The transforms of a reactor

`TransformReactor` makes its transforms from its configuration, with the terms of a vocabulary.
When the vocabulary changes, each transform takes the new term of the reference that it sets, but it
keeps its copies of the terms that it reads.
-/
import PionCore.Platform.Transform

namespace PionCore.Platform

open PionCore.Lib
open LogCodec (cString)

variable {φ δ χ θ ρ : Type*}

/-! ### Configuration -/

/-- The names of `comparison_table`. -/
def comparisonTable : List (Bytes × ComparisonType) :=
  [(ascii "false", .false), (ascii "true", .true), (ascii "is-defined", .isDefined),
    (ascii "is-not-defined", .isNotDefined), (ascii "equals", .equals),
    (ascii "not-equals", .notEquals), (ascii "greater-than", .greaterThan),
    (ascii "less-than", .lessThan), (ascii "greater-or-equal", .greaterOrEqual),
    (ascii "less-or-equal", .lessOrEqual), (ascii "exact-match", .exactMatch),
    (ascii "not-exact-match", .notExactMatch), (ascii "contains", .contains),
    (ascii "not-contains", .notContains), (ascii "starts-with", .startsWith),
    (ascii "not-starts-with", .notStartsWith), (ascii "ends-with", .endsWith),
    (ascii "not-ends-with", .notEndsWith), (ascii "ordered-before", .orderedBefore),
    (ascii "not-ordered-before", .notOrderedBefore), (ascii "ordered-after", .orderedAfter),
    (ascii "not-ordered-after", .notOrderedAfter), (ascii "regex", .regex),
    (ascii "not-regex", .notRegex), (ascii "exact-match-primary", .exactMatchPrimary),
    (ascii "not-exact-match-primary", .notExactMatchPrimary),
    (ascii "contains-primary", .containsPrimary),
    (ascii "not-contains-primary", .notContainsPrimary),
    (ascii "starts-with-primary", .startsWithPrimary),
    (ascii "not-starts-with-primary", .notStartsWithPrimary),
    (ascii "ends-with-primary", .endsWithPrimary),
    (ascii "not-ends-with-primary", .notEndsWithPrimary),
    (ascii "ordered-before-primary", .orderedBeforePrimary),
    (ascii "not-ordered-before-primary", .notOrderedBeforePrimary),
    (ascii "ordered-after-primary", .orderedAfterPrimary),
    (ascii "not-ordered-after-primary", .notOrderedAfterPrimary),
    (ascii "same-date-time", .sameDateTime), (ascii "not-same-date-time", .notSameDateTime),
    (ascii "earlier-date-time", .earlierDateTime), (ascii "later-date-time", .laterDateTime),
    (ascii "same-or-earlier-date-time", .sameOrEarlierDateTime),
    (ascii "same-or-later-date-time", .sameOrLaterDateTime), (ascii "same-date", .sameDate),
    (ascii "not-same-date", .notSameDate), (ascii "earlier-date", .earlierDate),
    (ascii "later-date", .laterDate), (ascii "same-or-earlier-date", .sameOrEarlierDate),
    (ascii "same-or-later-date", .sameOrLaterDate), (ascii "same-time", .sameTime),
    (ascii "not-same-time", .notSameTime), (ascii "earlier-time", .earlierTime),
    (ascii "later-time", .laterTime), (ascii "same-or-earlier-time", .sameOrEarlierTime),
    (ascii "same-or-later-time", .sameOrLaterTime)]

/-- `parseComparisonType` -/
def parseComparisonType (str : Bytes) : Option ComparisonType :=
  (comparisonTable.find? fun e => e.1 == str.map toLower).map Prod.snd

/-- A `Rule` of the configuration: its elements, if they are there. -/
structure TransformRuleConfig where
  term : Option Bytes := none
  type : Option Bytes := none
  value : Option Bytes := none
  setValue : Option Bytes := none

/-- A `Transformation` of the configuration: its elements, with the attributes of `Value`, the keys
and values of the `Lookup` elements, and the expressions and formats of the `Regex` elements. -/
structure TransformationConfig where
  term : Option Bytes := none
  type : Option Bytes := none
  value : Option Bytes := none
  sep : Bytes := []
  uniq : Bytes := []
  lookupTerm : Option Bytes := none
  regexp : Option Bytes := none
  format : Option Bytes := none
  defaultAction : Option Bytes := none
  defaultValue : Option Bytes := none
  lookups : List (Bytes × Bytes) := []
  stopOnFirstMatch : Option Bytes := none
  rules : List TransformRuleConfig := []
  sourceTerm : Option Bytes := none
  regexps : List (Bytes × Bytes) := []

namespace Transform

/-- `getConfigOption`, for which an empty element is none. -/
def getConfigOption (o : Option Bytes) : Option Bytes := o.filter (· ≠ [])

/-- A term that is named by an element, with the texts of the exceptions. -/
def sourceTerm (v : Vocabulary) (missing invalid : Bytes) (o : Option Bytes) :
    Except TransformError Term :=
  match getConfigOption o with
  | none => .error (.missingTransformField missing)
  | some termId =>
    if v.findTerm termId = 0 then .error (.missingTransformField invalid)
    else .ok (v.get (v.findTerm termId))

/-- What is made with a source term. -/
def withSource {α : Type*} (src : Except TransformError Term)
    (f : Term → Except TransformError α) : Except TransformError α :=
  match src with
  | .error error => .error error
  | .ok term => f term

/-- The source term of a class that copies values. -/
def valueTerm (v : Vocabulary) (name : Bytes) (o : Option Bytes) : Except TransformError Term :=
  sourceTerm v (ascii "Missing Source-Term in Transformation" ++ name)
    (ascii "Invalid Source-Term in Transformation" ++ name) o

/-- The separator of a class that needs one. -/
def separator (sep : Bytes) : Except TransformError Bytes :=
  if sep = [] then
    .error (.missingTransformField (ascii "Missing separator value in TransformationSplitTerm"))
  else .ok sep

/-- The table of `TransformLookup`, with the entries so far. -/
def lookupTable (table : List (Bytes × Bytes)) :
    List (Bytes × Bytes) → Except TransformError (List (Bytes × Bytes))
  | [] =>
    if table = [] then
      .error (.missingTransformField (ascii "No Key-Values in TransformationLookup"))
    else .ok table
  | (key, value) :: rest =>
    if value = [] then
      .error (.missingTransformField (ascii "Missing Value in TransformationLookup"))
    else if key = [] then
      .error (.missingTransformField (ascii "Missing Key in TransformationLookup"))
    else if (table.find? fun e => e.1 == key).isSome then
      .error (.missingTransformField (ascii "Duplicate Key in TransformationLookup"))
    else lookupTable (table ++ [(key, value)]) rest

variable (lib : TransformLibrary φ δ χ θ ρ)

def lookupDefault (action : Option Bytes) : LookupDefault :=
  if getConfigOption action = some (ascii "src-term") then .srcTerm
  else if getConfigOption action = some (ascii "output") then .output
  else if getConfigOption action = some (ascii "fixedvalue") then .fixed
  else .undefined

/-- The regular expression of `TransformLookup`, which may be left out. -/
def lookupRegex (regexp : Option Bytes) : Except TransformError ρ :=
  match regexp with
  | none => .ok lib.emptyRegex
  | some val =>
    match lib.makeRegex val with
    | none => .error (.missingTransformField
        (ascii "Invalid regular expression in TransformationLookup: " ++ val))
    | some regex => .ok regex

/-- The members of `TransformLookup`. -/
def lookupOf (config : TransformationConfig) : Except TransformError (Lookup ρ) :=
  (lookupRegex lib config.regexp).bind fun regex =>
    match lookupTable [] config.lookups with
    | .error error => .error error
    | .ok table => .ok
      { regex := regex
        matchStr := config.regexp.getD []
        format := config.format.getD []
        default := lookupDefault config.defaultAction
        fixed :=
          if lookupDefault config.defaultAction = .fixed then config.defaultValue.getD [] else []
        lookup := table }

/-- The comparison of a rule. -/
def comparisonOf (term : Term) (debugMode : Bool) (config : TransformRuleConfig) :
    Except TransformError (Comparison φ δ χ θ ρ) :=
  match getConfigOption config.type with
  | none => .error (.missingTransformField (ascii "Missing Value in TransformationAssignRules"))
  | some name =>
    match parseComparisonType name with
    | none => .error (.unknownComparisonType name)
    | some type =>
      if type.requiresValue = true ∧ config.value = none then
        .error (.missingTransformField (ascii "Missing Value in TransformationAssignRules"))
      else
        match (Comparison.new lib.toComparisonLibrary term debugMode).configure
          lib.toComparisonLibrary type
          (if type.requiresValue then config.value.getD [] else []) false with
        | (_, some error) => .error (.configure error)
        | (comparison, none) => .ok comparison

def ruleOf (v : Vocabulary) (debugMode : Bool) (config : TransformRuleConfig) :
    Except TransformError (Rule φ δ χ θ ρ) :=
  withSource (sourceTerm v (ascii "Missing Source-Term in TransformationAssignRules")
    (ascii "Invalid Term in TransformationAssignRules") config.term) fun term =>
    (comparisonOf lib term debugMode config).bind fun comparison =>
      match config.setValue with
      | none =>
        .error (.missingTransformField (ascii "Missing SetValue in TransformationAssignRules"))
      | some setValue => .ok { setValue := setValue, comparison := comparison }

def rulesOf (v : Vocabulary) (debugMode : Bool) :
    List TransformRuleConfig → Except TransformError (List (Rule φ δ χ θ ρ))
  | [] => .ok []
  | config :: configs =>
    (ruleOf lib v debugMode config).bind fun rule =>
      (rulesOf v debugMode configs).map fun rules => rule :: rules

/-- The regular expressions of `TransformRegex`. -/
def regexesOf : List (Bytes × Bytes) → Except TransformError (List (RegexRule ρ))
  | [] => .ok []
  | (exp, format) :: rest =>
    if exp = [] then
      .error (.missingTransformField (ascii "Missing Regexp in TransformationRegex"))
    else
      match lib.makeRegex exp with
      | none => .error
          (.missingTransformField (ascii "Invalid regular expression in TransformationRegex"))
      | some regex =>
        (regexesOf rest).map fun rules =>
          { format := format, regex := regex, regexStr := exp } :: rules

/-- The constructors of the classes. -/
def kindOf (v : Vocabulary) (debugMode : Bool) (config : TransformationConfig) (type : Bytes) :
    Except TransformError (Kind φ δ χ θ ρ) :=
  if type = ascii "AssignValue" then
    match config.value with
    | none => .error (.missingTransformField (ascii "Missing Value in TransformationAssignValue"))
    | some value => .ok (.assignValue value)
  else if type = ascii "AssignTerm" then
    withSource (valueTerm v (ascii "AssignTerm") config.value) fun src => .ok (.assignTerm src)
  else if type = ascii "Lookup" then
    withSource (sourceTerm v (ascii "Missing LookupTerm in TransformationAssignLookup")
      (ascii "Invalid LookupTerm in TransformationAssignLookup") config.lookupTerm)
        fun src => (lookupOf lib config).map (.lookup src)
  else if type = ascii "Rules" then
    match getConfigOption config.stopOnFirstMatch with
    | none =>
      .error (.missingTransformField
        (ascii "Missing StopOnFirstMatch in TransformationAssignRules"))
    | some str => (rulesOf lib v debugMode config.rules).map (.rules (str = ascii "true"))
  else if type = ascii "Regex" then
    withSource (sourceTerm v (ascii "Missing SourceTerm in TransformationRegex")
      (ascii "Invalid SourceTerm in TransformationRegex") config.sourceTerm) fun src =>
        (regexesOf lib config.regexps).bind fun rules =>
          if rules.isEmpty then
            .error (.missingTransformField (ascii "No Regexp's in TransformationRegex"))
          else .ok (.regex src rules)
  else if type = ascii "SplitTerm" then
    withSource (valueTerm v (ascii "SplitTerm") config.value) fun src =>
      match separator config.sep with
      | .error error => .error error
      | .ok sep => .ok (.splitTerm src sep)
  else if type = ascii "JoinTerm" then
    withSource (valueTerm v (ascii "JoinTerm") config.value) fun src =>
      match separator config.sep with
      | .error error => .error error
      | .ok sep => .ok (.joinTerm src sep (config.uniq = ascii "true"))
  else if type = ascii "URLEncode" then
    withSource (valueTerm v (ascii "URLEncode") config.value) fun src => .ok (.urlEncode src)
  else if type = ascii "URLDecode" then
    withSource (valueTerm v (ascii "URLDecode") config.value) fun src => .ok (.urlDecode src)
  else .error (.invalidTransformation type)

/-- A transform of the configuration. -/
def new (v : Vocabulary) (debugMode : Bool) (config : TransformationConfig) :
    Except TransformError (Transform φ δ χ θ ρ) :=
  match getConfigOption config.term with
  | none => .error .emptyTerm
  | some termId =>
    if v.findTerm termId = 0 then .error .unknownTerm
    else
      match getConfigOption config.type with
      | none => .error .emptyType
      | some type =>
        (kindOf lib v debugMode config type).map fun kind =>
          { term := v.get (v.findTerm termId), debugMode := debugMode, kind := kind }

/-! ### Other terms -/

/-- The terms that a transform reads. -/
def Kind.sources : Kind φ δ χ θ ρ → List Term
  | .assignValue _ => []
  | .assignTerm src | .urlEncode src | .urlDecode src | .splitTerm src _ | .joinTerm src _ _
  | .lookup src _ | .regex src _ => [src]
  | .rules _ rs => rs.map fun r => r.comparison.term

/-- A term has the same reference in a vocabulary, and what is read of it is the same. -/
def Unchanged (v : Vocabulary) (u : Term) : Prop :=
  v.findTerm u.termId = u.termRef ∧ (v.get u.termRef).core = u.core

end Transform

namespace Comparison

variable (lib : ComparisonLibrary φ δ χ θ ρ)

lemma convertValue_core (c : Comparison φ δ χ θ ρ) (value : Bytes) :
    c.core.convertValue lib value = (c.convertValue lib value).map core := by
  have htype : c.core.term.termType = c.term.termType := rfl
  rw [convertValue, convertValue, htype]
  cases hterm : c.term.termType
  case dateTime | date | time =>
    have hformat : c.core.term.termFormat = c.term.termFormat :=
      Term.core_termFormat (by rw [hterm]; rfl)
    dsimp only
    rw [hformat]
    cases lib.conv.toDateTime c.term.termFormat value <;> rfl
  case null | object | shortString | string | longString | char | blob | zblob => rfl
  all_goals
    dsimp only
    rw [Option.map_map]
    rfl

lemma setValue_core (c : Comparison φ δ χ θ ρ) (type : ComparisonType) (value : Bytes) :
    c.core.setValue lib type value =
      ((c.setValue lib type value).1.core, (c.setValue lib type value).2) := by
  rw [setValue, setValue]
  split_ifs
  · cases lib.makeRegex value <;> rfl
  · cases type.functor (cString value) with
    | none => rfl
    | some f =>
      cases f with
      | none => rfl
      | some f =>
        dsimp only
        split_ifs <;> rfl
  · rw [convertValue_core]
    cases c.convertValue lib value <;> rfl
  · rfl

lemma configure_core (c : Comparison φ δ χ θ ρ) (type : ComparisonType) (value : Bytes)
    (matchAllValues : Bool) :
    c.core.configure lib type value matchAllValues =
      ((c.configure lib type value matchAllValues).1.core,
        (c.configure lib type value matchAllValues).2) := by
  have htype : c.core.term.termType = c.term.termType := rfl
  rw [configure, configure, htype, setValue_core]
  split_ifs
  · rfl
  · rfl
  · obtain ⟨c', _ | error⟩ := c.setValue lib type value <;> rfl

variable {lib} in
lemma configure_term {c c' : Comparison φ δ χ θ ρ} {type : ComparisonType} {value : Bytes}
    {matchAllValues : Bool} (h : c.configure lib type value matchAllValues = (c', none)) :
    c'.term = c.term := by
  rw [configure] at h
  split_ifs at h
  · cases h
  · cases h
  · rcases hset : c.setValue lib type value with ⟨d, _ | error⟩
    · rw [hset] at h
      cases h
      show d.term = c.term
      exact setValue_term hset
    · rw [hset] at h
      cases h

end Comparison

namespace Transform

variable (lib : TransformLibrary φ δ χ θ ρ)

lemma comparisonOf_core (term : Term) (debugMode : Bool) (config : TransformRuleConfig) :
    comparisonOf lib term.core debugMode config =
      (comparisonOf lib term debugMode config).map Comparison.core := by
  have hnew : Comparison.new lib.toComparisonLibrary term.core debugMode =
      (Comparison.new lib.toComparisonLibrary term debugMode).core := rfl
  rw [comparisonOf, comparisonOf, hnew]
  cases getConfigOption config.type with
  | none => rfl
  | some name =>
    dsimp only
    cases parseComparisonType name with
    | none => rfl
    | some type =>
      dsimp only
      by_cases hvalue : type.requiresValue = true ∧ config.value = none
      · rw [if_pos hvalue, if_pos hvalue]
        rfl
      · rw [if_neg hvalue, if_neg hvalue, Comparison.configure_core]
        obtain ⟨c, _ | error⟩ := (Comparison.new lib.toComparisonLibrary term debugMode).configure
          lib.toComparisonLibrary type
          (if type.requiresValue then config.value.getD [] else []) false <;> rfl

/-- A comparison has the term that it is made for. -/
lemma comparisonOf_term {term : Term} {debugMode : Bool} {config : TransformRuleConfig}
    {c : Comparison φ δ χ θ ρ} (h : comparisonOf lib term debugMode config = .ok c) :
    c.term = term := by
  rw [comparisonOf] at h
  cases hname : getConfigOption config.type with
  | none => rw [hname] at h; cases h
  | some name =>
    rw [hname] at h
    dsimp only at h
    cases htype : parseComparisonType name with
    | none => rw [htype] at h; cases h
    | some type =>
      rw [htype] at h
      dsimp only at h
      by_cases hvalue : type.requiresValue = true ∧ config.value = none
      · rw [if_pos hvalue] at h
        cases h
      · rw [if_neg hvalue] at h
        rcases hconfigure : (Comparison.new lib.toComparisonLibrary term debugMode).configure
          lib.toComparisonLibrary type
          (if type.requiresValue then config.value.getD [] else []) false with ⟨d, _ | error⟩
        · rw [hconfigure] at h
          cases h
          exact Comparison.configure_term hconfigure
        · rw [hconfigure] at h
          cases h

variable {lib} {v₀ v : Vocabulary}

/-- A term that has not changed is found again. -/
lemma sourceTerm_unchanged (hv₀ : v₀.Sound) {missing invalid : Bytes} {o : Option Bytes}
    {src : Term} (h : sourceTerm v₀ missing invalid o = .ok src) (hsrc : Unchanged v src) :
    ∃ src', sourceTerm v missing invalid o = .ok src' ∧ src'.core = src.core := by
  rw [sourceTerm] at h ⊢
  cases ho : getConfigOption o with
  | none => rw [ho] at h; cases h
  | some termId =>
    rw [ho] at h
    dsimp only at h ⊢
    split_ifs at h with hne
    obtain rfl := Except.ok.inj h
    obtain ⟨hid, href⟩ := hv₀.get_findTerm hne
    obtain ⟨hfind, hcore⟩ := hsrc
    rw [hid, href] at hfind
    rw [href] at hcore
    rw [hfind, if_neg hne]
    exact ⟨_, rfl, hcore⟩

/-- What is made with a source term, if terms of which the same is read make the same. -/
lemma withSource_unchanged {α : Type*} (hv₀ : v₀.Sound) {missing invalid : Bytes}
    {o : Option Bytes} {f : Term → Except TransformError α} {a : α} {P : α → Prop}
    (h : withSource (sourceTerm v₀ missing invalid o) f = .ok a)
    (hf : ∀ src, f src = .ok a →
      Unchanged v src ∧ ∀ src', src'.core = src.core → ∃ a', f src' = .ok a' ∧ P a') :
    ∃ a', withSource (sourceTerm v missing invalid o) f = .ok a' ∧ P a' := by
  cases hsrc : sourceTerm v₀ missing invalid o with
  | error error => rw [hsrc] at h; cases h
  | ok src =>
    rw [hsrc] at h
    obtain ⟨hunchanged, hmade⟩ := hf src h
    obtain ⟨src', hsrc', hcore⟩ := sourceTerm_unchanged hv₀ hsrc hunchanged
    rw [hsrc']
    exact hmade src' hcore

lemma ruleOf_unchanged (hv₀ : v₀.Sound) {debugMode : Bool} {config : TransformRuleConfig}
    {r : Rule φ δ χ θ ρ} (h : ruleOf lib v₀ debugMode config = .ok r)
    (hr : Unchanged v r.comparison.term) :
    ∃ r', ruleOf lib v debugMode config = .ok r' ∧ r'.core = r.core := by
  refine withSource_unchanged hv₀ h fun src hsrc => ?_
  cases hc : comparisonOf lib src debugMode config with
  | error error => rw [hc] at hsrc; cases hsrc
  | ok c =>
    rw [hc] at hsrc
    cases hset : config.setValue with
    | none => rw [hset] at hsrc; cases hsrc
    | some setValue =>
      rw [hset] at hsrc
      cases hsrc
      refine ⟨comparisonOf_term lib hc ▸ hr, fun src' hcore => ?_⟩
      have hmap : (comparisonOf lib src' debugMode config).map Comparison.core = .ok c.core := by
        rw [← comparisonOf_core, hcore, comparisonOf_core, hc]
        rfl
      cases hc' : comparisonOf lib src' debugMode config with
      | error error => rw [hc'] at hmap; cases hmap
      | ok c' =>
        rw [hc'] at hmap
        have hsame : c'.core = c.core := Except.ok.inj hmap
        exact ⟨⟨setValue, c', true⟩, rfl, by rw [Rule.core, Rule.core, hsame]⟩

lemma rulesOf_unchanged (hv₀ : v₀.Sound) {debugMode : Bool} {configs : List TransformRuleConfig}
    {rs : List (Rule φ δ χ θ ρ)} (h : rulesOf lib v₀ debugMode configs = .ok rs)
    (hrs : ∀ r ∈ rs, Unchanged v r.comparison.term) :
    ∃ rs', rulesOf lib v debugMode configs = .ok rs' ∧ rs'.map Rule.core = rs.map Rule.core := by
  induction configs generalizing rs with
  | nil =>
    cases h
    exact ⟨[], rfl, rfl⟩
  | cons config configs ih =>
    rw [rulesOf] at h ⊢
    cases hr : ruleOf lib v₀ debugMode config with
    | error error => rw [hr] at h; cases h
    | ok r =>
      rw [hr] at h
      cases hrest : rulesOf lib v₀ debugMode configs with
      | error error => rw [hrest] at h; cases h
      | ok rest =>
        rw [hrest] at h
        cases h
        obtain ⟨r', hr', hcore⟩ := ruleOf_unchanged hv₀ hr (hrs r List.mem_cons_self)
        obtain ⟨rest', hrest', hcores⟩ :=
          ih hrest fun r hr => hrs r (List.mem_cons_of_mem _ hr)
        rw [hr', hrest']
        exact ⟨r' :: rest', rfl, by rw [List.map_cons, List.map_cons, hcore, hcores]⟩

/-- A transform with one source term. -/
lemma withSource_kind (hv₀ : v₀.Sound) {missing invalid : Bytes} {o : Option Bytes}
    {f : Term → Kind φ δ χ θ ρ} {k : Kind φ δ χ θ ρ}
    (h : withSource (sourceTerm v₀ missing invalid o) (fun src => .ok (f src)) = .ok k)
    (hk : ∀ u ∈ k.sources, Unchanged v u) (hsources : ∀ src, src ∈ (f src).sources)
    (hcore : ∀ src src', src'.core = src.core → (f src').core = (f src).core) :
    ∃ k', withSource (sourceTerm v missing invalid o) (fun src => .ok (f src)) = .ok k' ∧
      k'.core = k.core := by
  refine withSource_unchanged hv₀ h fun src hsrc => ?_
  obtain rfl := Except.ok.inj hsrc
  exact ⟨hk src (hsources src), fun src' h => ⟨f src', rfl, hcore src src' h⟩⟩

/-- A transform is made again, with what is read of the same terms. -/
lemma kindOf_unchanged (hv₀ : v₀.Sound) {debugMode : Bool} {config : TransformationConfig}
    {type : Bytes} {k : Kind φ δ χ θ ρ} (h : kindOf lib v₀ debugMode config type = .ok k)
    (hk : ∀ u ∈ k.sources, Unchanged v u) :
    ∃ k', kindOf lib v debugMode config type = .ok k' ∧ k'.core = k.core := by
  rw [kindOf] at h ⊢
  by_cases hvalue : type = ascii "AssignValue"
  · rw [if_pos hvalue] at h ⊢
    exact ⟨k, h, rfl⟩
  rw [if_neg hvalue] at h ⊢
  by_cases hterm : type = ascii "AssignTerm"
  · rw [if_pos hterm] at h ⊢
    exact withSource_kind hv₀ h hk (fun _ => List.mem_cons_self) fun _ _ hcore =>
      congrArg Kind.assignTerm hcore
  rw [if_neg hterm] at h ⊢
  by_cases hlookup : type = ascii "Lookup"
  · rw [if_pos hlookup] at h ⊢
    cases hl : lookupOf lib config with
    | error error =>
      rw [hl] at h
      refine withSource_unchanged hv₀ h fun src hsrc => ?_
      cases hsrc
    | ok l =>
      rw [hl] at h
      exact withSource_kind hv₀ h hk (fun _ => List.mem_cons_self) fun _ _ hcore =>
        congrArg (Kind.lookup · l) hcore
  rw [if_neg hlookup] at h ⊢
  by_cases hrules : type = ascii "Rules"
  · rw [if_pos hrules] at h ⊢
    cases hstop : getConfigOption config.stopOnFirstMatch with
    | none => rw [hstop] at h; cases h
    | some str =>
      rw [hstop] at h
      dsimp only at h ⊢
      cases hrs : rulesOf lib v₀ debugMode config.rules with
      | error error => rw [hrs] at h; cases h
      | ok rs =>
        rw [hrs] at h
        cases h
        obtain ⟨rs', hrs', hcore⟩ := rulesOf_unchanged hv₀ hrs fun r hr =>
          hk _ (List.mem_map_of_mem hr)
        rw [hrs']
        exact ⟨_, rfl, by rw [Kind.core, Kind.core, hcore]⟩
  rw [if_neg hrules] at h ⊢
  by_cases hregex : type = ascii "Regex"
  · rw [if_pos hregex] at h ⊢
    cases hrs : regexesOf lib config.regexps with
    | error error =>
      rw [hrs] at h
      refine withSource_unchanged hv₀ h fun src hsrc => ?_
      cases hsrc
    | ok rs =>
      cases rs with
      | nil =>
        rw [hrs] at h
        refine withSource_unchanged hv₀ h fun src hsrc => ?_
        cases hsrc
      | cons r rs =>
        rw [hrs] at h
        exact withSource_kind hv₀ h hk (fun _ => List.mem_cons_self) fun _ _ hcore =>
          congrArg (Kind.regex · (r :: rs)) hcore
  rw [if_neg hregex] at h ⊢
  by_cases hsplit : type = ascii "SplitTerm"
  · rw [if_pos hsplit] at h ⊢
    cases hsep : separator config.sep with
    | error error =>
      rw [hsep] at h
      refine withSource_unchanged hv₀ h fun src hsrc => ?_
      cases hsrc
    | ok sep =>
      rw [hsep] at h
      exact withSource_kind hv₀ h hk (fun _ => List.mem_cons_self) fun _ _ hcore =>
        congrArg (Kind.splitTerm · sep) hcore
  rw [if_neg hsplit] at h ⊢
  by_cases hjoin : type = ascii "JoinTerm"
  · rw [if_pos hjoin] at h ⊢
    cases hsep : separator config.sep with
    | error error =>
      rw [hsep] at h
      refine withSource_unchanged hv₀ h fun src hsrc => ?_
      cases hsrc
    | ok sep =>
      rw [hsep] at h
      exact withSource_kind hv₀ h hk (fun _ => List.mem_cons_self) fun _ _ hcore =>
        congrArg (Kind.joinTerm · sep _) hcore
  rw [if_neg hjoin] at h ⊢
  by_cases hencode : type = ascii "URLEncode"
  · rw [if_pos hencode] at h ⊢
    exact withSource_kind hv₀ h hk (fun _ => List.mem_cons_self) fun _ _ hcore =>
      congrArg Kind.urlEncode hcore
  rw [if_neg hencode] at h ⊢
  by_cases hdecode : type = ascii "URLDecode"
  · rw [if_pos hdecode] at h ⊢
    exact withSource_kind hv₀ h hk (fun _ => List.mem_cons_self) fun _ _ hcore =>
      congrArg Kind.urlDecode hcore
  rw [if_neg hdecode] at h
  cases h

/-- The condition on a vocabulary: the term that is set has kept its reference, and the terms that
are read have not changed. -/
def Follows (t : Transform φ δ χ θ ρ) (v : Vocabulary) : Prop :=
  v.findTerm t.term.termId = t.term.termRef ∧ ∀ u ∈ t.kind.sources, Unchanged v u

instance (t : Transform φ δ χ θ ρ) (v : Vocabulary) : Decidable (Follows t v) :=
  inferInstanceAs (Decidable (_ ∧ ∀ u ∈ t.kind.sources,
    v.findTerm u.termId = u.termRef ∧ (v.get u.termRef).core = u.core))

/-- A transform that has been made from a configuration, but for what its term has beside its
identifier and its reference. -/
def MadeFrom (lib : TransformLibrary φ δ χ θ ρ) (v₀ : Vocabulary) (debugMode : Bool)
    (config : TransformationConfig) (t : Transform φ δ χ θ ρ) : Prop :=
  ∃ t₀, new lib v₀ debugMode config = .ok t₀ ∧ t.kind = t₀.kind ∧ t.debugMode = t₀.debugMode ∧
    t.term.termId = t₀.term.termId ∧ t.term.termRef = t₀.term.termRef

/-- What `new` does when it does not throw. -/
lemma new_ok {debugMode : Bool} {config : TransformationConfig} {t : Transform φ δ χ θ ρ}
    (h : new lib v debugMode config = .ok t) : ∃ termId type,
      getConfigOption config.term = some termId ∧ v.findTerm termId ≠ 0 ∧
      getConfigOption config.type = some type ∧
      kindOf lib v debugMode config type = .ok t.kind ∧
      t.term = v.get (v.findTerm termId) ∧ t.debugMode = debugMode := by
  rw [new] at h
  cases hterm : getConfigOption config.term with
  | none => rw [hterm] at h; cases h
  | some termId =>
    rw [hterm] at h
    dsimp only at h
    split_ifs at h with hne
    cases htype : getConfigOption config.type with
    | none => rw [htype] at h; cases h
    | some type =>
      rw [htype] at h
      dsimp only at h
      cases hk : kindOf lib v debugMode config type with
      | error error => rw [hk] at h; cases h
      | ok k =>
        rw [hk] at h
        cases h
        exact ⟨termId, type, rfl, hne, rfl, hk, rfl, rfl⟩

/-- A step: the transform is still as it was made, and it does what a new one does. -/
lemma MadeFrom.updateVocabulary (hv₀ : v₀.Sound) (hv : v.Sound) {debugMode : Bool}
    {config : TransformationConfig} {t : Transform φ δ χ θ ρ}
    (h : MadeFrom lib v₀ debugMode config t) (hfollows : Follows t v) :
    MadeFrom lib v₀ debugMode config (t.updateVocabulary v) ∧
      ∃ t', new lib v debugMode config = .ok t' ∧ Alike lib (t.updateVocabulary v) t' := by
  obtain ⟨t₀, hnew, hkind, hdebug, hid, href⟩ := h
  obtain ⟨hfind, hsources⟩ := hfollows
  obtain ⟨termId, type, hterm, hne, htype, hkindOf, hget, hmode⟩ := new_ok hnew
  obtain ⟨hget₀, href₀⟩ := hv₀.get_findTerm hne
  -- the reference is that of the configured identifier
  have hid : t.term.termId = termId := by rw [hid, hget, hget₀]
  have href : t.term.termRef = v₀.findTerm termId := by rw [href, hget, href₀]
  rw [hid, href] at hfind
  have hne' : v.findTerm termId ≠ 0 := hfind ▸ hne
  obtain ⟨hgetv, hrefv⟩ := hv.get_findTerm hne'
  have hupdated : (t.updateVocabulary v).term = v.get (v.findTerm termId) := by
    rw [Transform.updateVocabulary, hfind, href]
  constructor
  · refine ⟨t₀, hnew, hkind, hdebug, ?_, ?_⟩
    · rw [hupdated, hgetv, hget, hget₀]
    · rw [hupdated, hrefv, hfind, hget, href₀]
  · obtain ⟨k', hk', hcore⟩ := kindOf_unchanged hv₀ hkindOf fun u hu =>
      hsources u (hkind ▸ hu)
    refine ⟨⟨v.get (v.findTerm termId), debugMode, k'⟩, ?_, alike_of_core ?_⟩
    · rw [new, hterm]
      dsimp only
      rw [if_neg hne', htype]
      dsimp only
      rw [hk']
      rfl
    · have hkind' : t.kind.core = k'.core := by rw [hkind, hcore]
      have hmode' : t.debugMode = debugMode := hdebug.trans hmode
      rw [core, core]
      simp only [Transform.mk.injEq]
      exact ⟨hupdated, hmode', hkind'⟩

end Transform

/-- The transforms of a reactor. -/
abbrev TransformReactor (φ δ χ θ ρ : Type*) : Type _ := List (Transform φ δ χ θ ρ)

namespace TransformReactor

variable (lib : TransformLibrary φ δ χ θ ρ)

/-- `setConfig` -/
def setConfig (v : Vocabulary) (debugMode : Bool) :
    List TransformationConfig → Except TransformError (TransformReactor φ δ χ θ ρ)
  | [] => .ok []
  | config :: configs =>
    (Transform.new lib v debugMode config).bind fun t =>
      (setConfig v debugMode configs).map fun ts => t :: ts

def updateVocabulary (ts : TransformReactor φ δ χ θ ρ) (v : Vocabulary) :
    TransformReactor φ δ χ θ ρ :=
  ts.map fun t => t.updateVocabulary v

/-- The run of a reactor: its vocabulary changes. -/
def step (ts : TransformReactor φ δ χ θ ρ) (v : Vocabulary) : Option (TransformReactor φ δ χ θ ρ) :=
  some (ts.updateVocabulary v)

variable {lib}

/-- The transforms are made one by one. -/
lemma setConfig_eq_ok {v : Vocabulary} {debugMode : Bool} {configs : List TransformationConfig}
    {ts : TransformReactor φ δ χ θ ρ} : setConfig lib v debugMode configs = .ok ts ↔
      List.Forall₂ (fun config t => Transform.new lib v debugMode config = .ok t) configs ts := by
  induction configs generalizing ts with
  | nil =>
    rw [setConfig, List.forall₂_nil_left_iff]
    exact ⟨fun h => (Except.ok.inj h).symm, fun h => h ▸ rfl⟩
  | cons config configs ih =>
    rw [setConfig, List.forall₂_cons_left_iff]
    constructor
    · intro h
      cases hnew : Transform.new lib v debugMode config with
      | error error => rw [hnew] at h; cases h
      | ok t =>
        rw [hnew] at h
        cases hrest : setConfig lib v debugMode configs with
        | error error => rw [hrest] at h; cases h
        | ok rest =>
          rw [hrest] at h
          cases h
          exact ⟨t, rest, rfl, ih.1 hrest, rfl⟩
    · rintro ⟨t, rest, hnew, hrest, rfl⟩
      rw [hnew, ih.2 hrest]
      rfl

/-- All transforms take a step. -/
lemma updateVocabulary_madeFrom {v₀ v : Vocabulary} (hv₀ : v₀.Sound) (hv : v.Sound)
    {debugMode : Bool} {configs : List TransformationConfig} {ts : TransformReactor φ δ χ θ ρ}
    (h : List.Forall₂ (Transform.MadeFrom lib v₀ debugMode) configs ts)
    (hfollows : ∀ t ∈ ts, Transform.Follows t v) :
    List.Forall₂ (Transform.MadeFrom lib v₀ debugMode) configs (ts.updateVocabulary v) ∧
      ∃ ts', setConfig lib v debugMode configs = .ok ts' ∧
        List.Forall₂ (Transform.Alike lib) (ts.updateVocabulary v) ts' := by
  induction h with
  | nil => exact ⟨.nil, [], rfl, .nil⟩
  | @cons config t configs ts hmade hrest ih =>
    obtain ⟨hnext, t', hnew, halike⟩ :=
      hmade.updateVocabulary hv₀ hv (hfollows t List.mem_cons_self)
    obtain ⟨hnexts, ts', hconfig, halikes⟩ := ih fun u hu => hfollows u (List.mem_cons_of_mem _ hu)
    exact ⟨.cons hnext hnexts, t' :: ts',
      setConfig_eq_ok.2 (.cons hnew (setConfig_eq_ok.1 hconfig)), .cons halike halikes⟩

/-- After each update of a run, the transforms process all events like those of a reactor that is
newly configured with the vocabulary, if each update leaves the references of the terms that are
set, and the terms that are read. -/
theorem follows_vocabulary {edits : List Vocabulary.Edit} {debugMode : Bool}
    {configs : List TransformationConfig} {ts : TransformReactor φ δ χ θ ρ}
    (hconfig : setConfig lib (Vocabulary.make edits) debugMode configs = .ok ts)
    {updates : List (List Vocabulary.Edit)}
    (hfollows : ∀ v us, HappensIn step ts (updates.map Vocabulary.make) v us →
      ∀ t ∈ us, Transform.Follows t v)
    (v : Vocabulary) (us : TransformReactor φ δ χ θ ρ)
    (hupdate : HappensIn step ts (updates.map Vocabulary.make) v us) :
    ∃ ts', setConfig lib v debugMode configs = .ok ts' ∧
      List.Forall₂ (Transform.Alike lib) (us.updateVocabulary v) ts' := by
  have hsound : ∀ v us, HappensIn step ts (updates.map Vocabulary.make) v us → v.Sound := by
    rintro v us ⟨before, after, heq, -⟩
    have hmem : v ∈ updates.map Vocabulary.make := heq ▸ by simp
    obtain ⟨edits', -, rfl⟩ := List.mem_map.1 hmem
    exact Vocabulary.sound_make edits'
  have hmade : List.Forall₂ (Transform.MadeFrom lib (Vocabulary.make edits) debugMode) configs ts :=
    (setConfig_eq_ok.1 hconfig).imp fun config t hnew => ⟨t, hnew, rfl, rfl, rfl, rfl⟩
  obtain ⟨before, after, heq, hrun⟩ := id hupdate
  have hbefore : List.Forall₂ (Transform.MadeFrom lib (Vocabulary.make edits) debugMode) configs
      us := by
    refine reached_invariant (Q := fun v us => v.Sound ∧ ∀ t ∈ us, Transform.Follows t v) hmade
      ?_ (fun w ws hws => ?_) hrun
    · rintro ws w ws' hws ⟨hw, hall⟩ hstep
      obtain rfl := Option.some.inj hstep
      exact (updateVocabulary_madeFrom (Vocabulary.sound_make edits) hw hws hall).1
    · have hlater := hws.append (v :: after)
      rw [← heq] at hlater
      exact ⟨hsound w ws hlater, hfollows w ws hlater⟩
  exact (updateVocabulary_madeFrom (Vocabulary.sound_make edits) (hsound v us hupdate) hbefore
    (hfollows v us hupdate)).2

/-! ### Small reactors -/

/-- A library in which times are written with formats that have no directives. -/
def literalLibrary : TransformLibrary Unit Unit Unit Unit Bytes where
  toComparisonLibrary := Comparison.asciiLibrary
  ofFloat _ := []
  ofDouble _ := []
  ofLongDouble _ := []
  ofDateTime format _ := format
  isEmptyRegex regex := regex = []
  replaceRegex _ _ _ := none

/-- A time, a word and a text. -/
def smallEdits : List Vocabulary.Edit :=
  [.addTerm { termId := ascii "time", termType := .dateTime, termFormat := ascii "old" },
    .addTerm { termId := ascii "word", termType := .string },
    .addTerm { termId := ascii "text", termType := .char, termSize := 9 }]

/-- The text is set from the time, or by a rule for words. -/
def smallConfigs : List TransformationConfig :=
  [{ term := some (ascii "text"), type := some (ascii "AssignTerm"),
     value := some (ascii "time") },
    { term := some (ascii "text"), type := some (ascii "Rules"),
      stopOnFirstMatch := some (ascii "true"),
      rules := [{ term := some (ascii "word"), type := some (ascii "contains"),
                  value := some (ascii "a"), setValue := some (ascii "yes") }] }]

/-- The vocabularies of two updates: the text gets another size, then the word a comment. -/
def smallUpdates : List (List Vocabulary.Edit) :=
  [smallEdits ++ [.updateTerm { termId := ascii "text", termType := .char, termSize := 5 }],
    smallEdits ++ [.updateTerm { termId := ascii "word", termType := .string,
                                 termComment := ascii "a word" }]]

/-- The vocabulary in which the time has another format. -/
def reformatted : List Vocabulary.Edit :=
  smallEdits ++ [.updateTerm { termId := ascii "time", termType := .dateTime,
                               termFormat := ascii "new" }]

theorem follows_vocabulary_small :
    ∃ ts, setConfig literalLibrary (Vocabulary.make smallEdits) false smallConfigs = .ok ts ∧
      ∀ v us, HappensIn step ts (smallUpdates.map Vocabulary.make) v us →
        ∃ ts', setConfig literalLibrary v false smallConfigs = .ok ts' ∧
          List.Forall₂ (Transform.Alike literalLibrary) (us.updateVocabulary v) ts' := by
  have hmeets : (setConfig literalLibrary (Vocabulary.make smallEdits) false
      smallConfigs).toOption.map (fun ts => meets step
        (fun v us => decide (∀ t ∈ us, Transform.Follows t v)) ts
        (smallUpdates.map Vocabulary.make)) = some true := by
    decide +kernel
  cases hconfig : setConfig literalLibrary (Vocabulary.make smallEdits) false smallConfigs with
  | error error => rw [hconfig] at hmeets; cases hmeets
  | ok ts =>
    rw [hconfig] at hmeets
    have hmeets := meets_iff.1 (Option.some.inj hmeets)
    exact ⟨ts, rfl, follows_vocabulary hconfig fun v us hus => of_decide_eq_true (hmeets v us hus)⟩

/-- The text that a transform sets for an event with a time. -/
def textOf (t : Transform Unit Unit Unit Unit Bytes) : Option Bytes :=
  match (t.transform literalLibrary [] 0 [(1, .dateTime ())]).2.1.getPointer 3 with
  | some (.blob s) => some s
  | _ => none

/-- A transform writes times with the old format of the term. -/
theorem not_follows_vocabulary :
    ∃ ts ts', setConfig literalLibrary (Vocabulary.make smallEdits) false smallConfigs = .ok ts ∧
      setConfig literalLibrary (Vocabulary.make reformatted) false smallConfigs = .ok ts' ∧
      ¬ List.Forall₂ (Transform.Alike literalLibrary)
        (ts.updateVocabulary (Vocabulary.make reformatted)) ts' := by
  have hold : (setConfig literalLibrary (Vocabulary.make smallEdits) false
      smallConfigs).toOption.map (fun ts =>
        (ts.updateVocabulary (Vocabulary.make reformatted)).map textOf) =
      some [some (ascii "old"), none] := by
    decide +kernel
  have hnew : (setConfig literalLibrary (Vocabulary.make reformatted) false
      smallConfigs).toOption.map (fun ts => ts.map textOf) = some [some (ascii "new"), none] := by
    decide +kernel
  cases hts : setConfig literalLibrary (Vocabulary.make smallEdits) false smallConfigs with
  | error error => rw [hts] at hold; cases hold
  | ok ts =>
    cases hts' : setConfig literalLibrary (Vocabulary.make reformatted) false smallConfigs with
    | error error => rw [hts'] at hnew; cases hnew
    | ok ts' =>
      rw [hts] at hold
      rw [hts'] at hnew
      have hold : (ts.updateVocabulary (Vocabulary.make reformatted)).map textOf =
          [some (ascii "old"), none] := Option.some.inj hold
      have hnew : ts'.map textOf = [some (ascii "new"), none] := Option.some.inj hnew
      refine ⟨ts, ts', rfl, rfl, fun h => ?_⟩
      have hmap : (ts.updateVocabulary (Vocabulary.make reformatted)).map textOf =
          ts'.map textOf := by
        refine List.forall₂_eq_eq_eq ▸ List.forall₂_map_left_iff.2
          (List.forall₂_map_right_iff.2 (h.imp fun t u halike => ?_))
        have hcall := (List.cons.inj (halike [([], 0, [(1, .dateTime ())])])).1
        rw [textOf, textOf, hcall]
      rw [hold, hnew] at hmap
      exact absurd hmap (by decide +kernel)

end TransformReactor

end PionCore.Platform
