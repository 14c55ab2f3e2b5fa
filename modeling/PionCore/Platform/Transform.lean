/-
# Transforms

A transform sets a term of an event from another event: to a fixed value, to the values of a source
term, to what is found for them in a table, or by rules and regular expressions.  It keeps copies of
the terms from its configuration.
-/
import PionCore.Common.PionAlgorithms
import PionCore.Platform.Comparison
import PionCore.Platform.LogWriter

namespace PionCore.Platform

open PionCore.Lib PionCore.Common
open LogCodec (cString)

/-! ### What is read of a term -/

namespace DataType

/-- The types whose values are written with the format of the term. -/
def isTime : DataType → Bool
  | .dateTime | .date | .time => true
  | _ => false

end DataType

/-- What a transform reads of a source term. -/
def Term.core (t : Term) : Term :=
  { termRef := t.termRef
    termType := t.termType
    termFormat := if t.termType.isTime then t.termFormat else [] }

@[simp] lemma Term.core_termRef (t : Term) : t.core.termRef = t.termRef := rfl

@[simp] lemma Term.core_termType (t : Term) : t.core.termType = t.termType := rfl

lemma Term.core_termFormat {t : Term} (h : t.termType.isTime = true) :
    t.core.termFormat = t.termFormat := if_pos h

variable {φ δ χ θ ρ : Type*}

/-- What is not in the code of transforms: what is not in that of comparisons, the strings that
`boost::lexical_cast` and `PionTimeFacet::toString` make, and `boost::u32regex_replace`, which may
throw. -/
structure TransformLibrary (φ δ χ θ ρ : Type*) extends ComparisonLibrary φ δ χ θ ρ where
  ofFloat : φ → Bytes
  ofDouble : δ → Bytes
  ofLongDouble : χ → Bytes
  ofDateTime : Bytes → θ → Bytes
  isEmptyRegex : ρ → Bool
  /-- a text, with a regular expression and a format -/
  replaceRegex : Bytes → ρ → Bytes → Option Bytes

/-- The exceptions of transforms and of their configuration. -/
inductive TransformError where
  | emptyTerm
  | unknownTerm
  | emptyType
  | invalidTransformation (type : Bytes)
  | missingTransformField (text : Bytes)
  | unknownComparisonType (name : Bytes)
  | configure (error : ConfigureError)
  | termTypeNotSerializable
  | badGet
  | regexFailure (text : Bytes)
  | valueAssignment (value : Bytes)
deriving DecidableEq

namespace Transform

variable (lib : TransformLibrary φ δ χ θ ρ)

/-- `Event::write` to a string. -/
def write (t : Term) (value : ParameterValue φ δ χ θ) : Except TransformError Bytes :=
  match t.termType, value with
  | .null, _ | .object, _ => .error .termTypeNotSerializable
  | .int8, .int32 v | .int16, .int32 v | .int32, .int32 v => .ok (decimal v.toInt)
  | .uint8, .uint32 v | .uint16, .uint32 v | .uint32, .uint32 v => .ok (numeral 10 v.toNat)
  | .int64, .int64 v => .ok (decimal v.toInt)
  | .uint64, .uint64 v => .ok (numeral 10 v.toNat)
  | .float, .float v => .ok (lib.ofFloat v)
  | .double, .double v => .ok (lib.ofDouble v)
  | .longDouble, .longDouble v => .ok (lib.ofLongDouble v)
  | .shortString, .blob v | .string, .blob v | .longString, .blob v | .char, .blob v
  | .blob, .blob v | .zblob, .blob v => .ok (cString v)
  | .dateTime, .dateTime v | .date, .dateTime v | .time, .dateTime v =>
    .ok (lib.ofDateTime t.termFormat v)
  | _, _ => .error .badGet

lemma write_core (t : Term) (value : ParameterValue φ δ χ θ) :
    write lib t.core value = write lib t value := by
  cases htype : t.termType <;> cases value <;> simp only [write, Term.core_termType, htype]
  all_goals rw [Term.core_termFormat (by rw [htype]; rfl)]

/-! ### Assignments

A transform may throw when it has set some of the values. -/

/-- The event that is set, and the result. -/
abbrev Assigned (φ δ χ θ : Type*) : Type _ := Event φ δ χ θ × Except TransformError Bool

/-- `AssignValue`: nothing is assigned for a string that is empty. -/
def assignValue (term : Term) (d : Event φ δ χ θ) (value : Bytes) : Assigned φ δ χ θ :=
  if value = [] then (d, .ok true)
  else
    match Event.set lib.conv d term value with
    | none => (d, .error (.valueAssignment value))
    | some d' => (d', .ok true)

/-- Some strings are assigned one after the other. -/
def assignValues (term : Term) : Event φ δ χ θ → Bool → List Bytes → Assigned φ δ χ θ
  | d, any, [] => (d, .ok any)
  | d, any, value :: values =>
    match assignValue lib term d value with
    | (d', .error error) => (d', .error error)
    | (d', .ok assigned) => assignValues term d' (any || assigned) values

/-- The loop over the values of the source term, of which each gives some strings. -/
def assignEach (term src : Term) (strings : Bytes → List Bytes) :
    Event φ δ χ θ → Bool → List (ParameterValue φ δ χ θ) → Assigned φ δ χ θ
  | d, any, [] => (d, .ok any)
  | d, any, v :: vs =>
    match write lib src v with
    | .error error => (d, .error error)
    | .ok str =>
      match assignValues lib term d any (strings str) with
      | (d', .error error) => (d', .error error)
      | (d', .ok any') => assignEach term src strings d' any' vs

/-- The tokens of `boost::tokenizer` with a `char_separator`: empty ones are dropped. -/
def tokens (sep : Bytes) (s : Bytes) : List Bytes :=
  (s.splitOnP sep.contains).filter (· ≠ [])

/-- The loop of `TransformJoinTerm`, with what has been seen and the result. -/
def joined (src : Term) (separator : Bytes) (unique : Bool) :
    List Bytes → Bytes → List (ParameterValue φ δ χ θ) → Except TransformError Bytes
  | _, result, [] => .ok result
  | seen, result, v :: vs =>
    match write lib src v with
    | .error error => .error error
    | .ok str =>
      if str ≠ [] && ! seen.contains str then
        joined src separator unique (if unique then str :: seen else seen)
          (result ++ (if result = [] then [] else separator) ++ str) vs
      else joined src separator unique seen result vs

/-! ### Lookups -/

/-- `m_default` -/
inductive LookupDefault where
  | undefined
  | srcTerm
  | output
  | fixed
deriving DecidableEq

/-- The members of `TransformLookup`, without the term. -/
structure Lookup (ρ : Type*) where
  regex : ρ
  matchStr : Bytes := []
  format : Bytes := []
  default : LookupDefault := .undefined
  fixed : Bytes := []
  lookup : List (Bytes × Bytes) := []
  running : Bool := true

/-- The value for a key that was made of a string, if one is assigned. -/
def Lookup.find (k : Lookup ρ) (key str : Bytes) : Option Bytes :=
  match k.lookup.find? (fun e => e.1 == key) with
  | some e => some e.2
  | none =>
    match k.default with
    | .undefined => none
    | .srcTerm => some str
    | .output => some key
    | .fixed => some k.fixed

/-- The key for a string: the regular expression is applied, if there is one. -/
def Lookup.key (k : Lookup ρ) (str : Bytes) : Option Bytes :=
  if lib.isEmptyRegex k.regex then some str else lib.replaceRegex str k.regex k.format

/-- The text of `RegexFailure`. -/
def failure (str regexStr : Bytes) : TransformError :=
  .regexFailure (ascii "str=" ++ str ++ ascii ", regex=" ++ regexStr)

/-- The loop of `TransformLookup`: whether it is still running, and what is assigned. -/
def lookupEach (term src : Term) (debugMode : Bool) (k : Lookup ρ) :
    Event φ δ χ θ → Bool → List (ParameterValue φ δ χ θ) → Bool × Assigned φ δ χ θ
  | d, any, [] => (true, d, .ok any)
  | d, any, v :: vs =>
    match write lib src v with
    | .error error => (true, d, .error error)
    | .ok str =>
      match k.key lib str with
      | none => (debugMode, d, .error (failure str k.matchStr))
      | some key =>
        match k.find key str with
        | none => lookupEach term src debugMode k d any vs
        | some value =>
          match assignValue lib term d value with
          | (d', .error error) => (true, d', .error error)
          | (d', .ok assigned) => lookupEach term src debugMode k d' (any || assigned) vs

/-! ### Regular expressions -/

/-- A regular expression of `TransformRegex`. -/
structure RegexRule (ρ : Type*) where
  format : Bytes
  regex : ρ
  regexStr : Bytes
  running : Bool := true

/-- A string is changed by each regular expression that is running. -/
def replaceAll (debugMode : Bool) :
    List (RegexRule ρ) → Bytes → List (RegexRule ρ) × Except TransformError Bytes
  | [], str => ([], .ok str)
  | r :: rs, str =>
    if r.running then
      match lib.replaceRegex str r.regex r.format with
      | none => ({ r with running := debugMode } :: rs, .error (failure str r.regexStr))
      | some res =>
        let p := replaceAll debugMode rs (if res = [] then str else res)
        (r :: p.1, p.2)
    else
      let p := replaceAll debugMode rs str
      (r :: p.1, p.2)

def regexEach (term src : Term) (debugMode : Bool) :
    List (RegexRule ρ) → Event φ δ χ θ → Bool → List (ParameterValue φ δ χ θ) →
      List (RegexRule ρ) × Assigned φ δ χ θ
  | rs, d, any, [] => (rs, d, .ok any)
  | rs, d, any, v :: vs =>
    match write lib src v with
    | .error error => (rs, d, .error error)
    | .ok str =>
      match replaceAll lib debugMode rs str with
      | (rs', .error error) => (rs', d, .error error)
      | (rs', .ok res) =>
        match assignValue lib term d res with
        | (d', .error error) => (rs', d', .error error)
        | (d', .ok assigned) => regexEach term src debugMode rs' d' (any || assigned) vs

/-! ### Rules -/

/-- A rule of `TransformRules`.  The rules do not read whether the comparison is running. -/
structure Rule (φ δ χ θ ρ : Type*) where
  setValue : Bytes
  comparison : Comparison φ δ χ θ ρ
  running : Bool := true

/-- What a rule assigns for a value; a regular expression makes it of the string. -/
def Rule.value (r : Rule φ δ χ θ ρ) (v : ParameterValue φ δ χ θ) : Option Bytes :=
  if r.comparison.type = .regex then
    (write lib r.comparison.term v).toOption.bind fun str =>
      lib.replaceRegex str r.comparison.regex r.setValue
  else some r.setValue

/-- The exception of a rule, which writes the value again. -/
def Rule.failure (r : Rule φ δ χ θ ρ) (v : ParameterValue φ δ χ θ) : TransformError :=
  match write lib r.comparison.term v with
  | .error error => error
  | .ok str => Transform.failure str r.comparison.regexStr

/-- The values of the term are compared: whether the rule is still running, and what is assigned. -/
def ruleEach (term : Term) (debugMode : Bool) (r : Rule φ δ χ θ ρ) :
    Event φ δ χ θ → Bool → List (ParameterValue φ δ χ θ) → Bool × Assigned φ δ χ θ
  | d, any, [] => (true, d, .ok any)
  | d, any, v :: vs =>
    match r.comparison.evaluateRange lib.toComparisonLibrary [v] with
    | .error _ => (debugMode, d, .error (r.failure lib v))
    | .ok false => ruleEach term debugMode r d any vs
    | .ok true =>
      match r.value lib v with
      | none => (debugMode, d, .error (r.failure lib v))
      | some value =>
        match assignValue lib term d value with
        | (d', .error _) => (debugMode, d', .error (r.failure lib v))
        | (d', .ok assigned) => ruleEach term debugMode r d' (any || assigned) vs

/-- The fixed value of a rule is assigned, if a condition holds. -/
def assignIf (term : Term) (condition : Bool) (value : Bytes) (d : Event φ δ χ θ) (any : Bool) :
    Bool × Assigned φ δ χ θ :=
  (true, if condition then assignValues lib term d any [value] else (d, .ok any))

/-- A rule, for an event of a type. -/
def Rule.apply (term : Term) (debugMode : Bool) (eventType : ℕ) (s : Event φ δ χ θ)
    (r : Rule φ δ χ θ ρ) (d : Event φ δ χ θ) (any : Bool) : Bool × Assigned φ δ χ θ :=
  let defined := eventType = r.comparison.term.termRef ∨
    (s.getPointer r.comparison.term.termRef).isSome = true
  match r.comparison.type with
  | .isDefined => assignIf lib term defined r.setValue d any
  | .true => assignIf lib term true r.setValue d any
  | .false => (true, d, .ok any)
  | .isNotDefined => assignIf lib term (¬ defined) r.setValue d any
  | _ => ruleEach lib term debugMode r d any (Comparison.valuesRange s r.comparison.term.termRef)

/-- The loop of `TransformRules`. -/
def applyRules (term : Term) (debugMode shortCircuit : Bool) (eventType : ℕ) (s : Event φ δ χ θ) :
    List (Rule φ δ χ θ ρ) → Event φ δ χ θ → Bool →
      List (Rule φ δ χ θ ρ) × Assigned φ δ χ θ
  | [], d, any => ([], d, .ok any)
  | r :: rs, d, any =>
    if r.running then
      match r.apply lib term debugMode eventType s d any with
      | (running, d', .error error) => ({ r with running := running } :: rs, d', .error error)
      | (_, d', .ok any') =>
        if shortCircuit && any' then (r :: rs, d', .ok any')
        else
          let p := applyRules term debugMode shortCircuit eventType s rs d' any'
          (r :: p.1, p.2)
    else
      let p := applyRules term debugMode shortCircuit eventType s rs d any
      (r :: p.1, p.2)

/-! ### The classes -/

/-- What the classes have beside their base. -/
inductive Kind (φ δ χ θ ρ : Type*) where
  | assignValue (setValue : Bytes)
  | assignTerm (src : Term)
  | urlEncode (src : Term)
  | urlDecode (src : Term)
  | splitTerm (src : Term) (sep : Bytes)
  | joinTerm (src : Term) (separator : Bytes) (unique : Bool)
  | lookup (lookupTerm : Term) (k : Lookup ρ)
  | rules (shortCircuit : Bool) (rules : List (Rule φ δ χ θ ρ))
  | regex (src : Term) (rules : List (RegexRule ρ))

end Transform

/-- `Transform` -/
structure Transform (φ δ χ θ ρ : Type*) where
  term : Term
  debugMode : Bool := false
  kind : Transform.Kind φ δ χ θ ρ

namespace Transform

variable (lib : TransformLibrary φ δ χ θ ρ)

/-- `transform`, for a source event of a type. -/
def transform (t : Transform φ δ χ θ ρ) (d : Event φ δ χ θ) (eventType : ℕ)
    (s : Event φ δ χ θ) : Transform φ δ χ θ ρ × Assigned φ δ χ θ :=
  let values (src : Term) := Comparison.valuesRange s src.termRef
  match t.kind with
  | .assignValue setValue => (t, assignValue lib t.term d setValue)
  | .assignTerm src => (t, assignEach lib t.term src (fun str => [str]) d false (values src))
  | .urlEncode src =>
    (t, assignEach lib t.term src (fun str => [urlEncode str]) d false (values src))
  | .urlDecode src =>
    (t, assignEach lib t.term src (fun str => [urlDecode str]) d false (values src))
  | .splitTerm src sep => (t, assignEach lib t.term src (tokens sep) d false (values src))
  | .joinTerm src separator unique =>
    match joined lib src separator unique [] [] (values src) with
    | .error error => (t, d, .error error)
    | .ok result => (t, assignValue lib t.term d result)
  | .lookup src k =>
    if k.running then
      let p := lookupEach lib t.term src t.debugMode k d false (values src)
      ({ t with kind := .lookup src { k with running := p.1 } }, p.2)
    else (t, d, .ok false)
  | .rules shortCircuit rules =>
    let p := applyRules lib t.term t.debugMode shortCircuit eventType s rules d false
    ({ t with kind := .rules shortCircuit p.1 }, p.2)
  | .regex src rules =>
    let p := regexEach lib t.term src t.debugMode rules d false (values src)
    ({ t with kind := .regex src p.1 }, p.2)

/-- The events of some calls, each with the event to be set and the type of the source event. -/
def transformAll (t : Transform φ δ χ θ ρ) :
    List (Event φ δ χ θ × ℕ × Event φ δ χ θ) → List (Assigned φ δ χ θ)
  | [] => []
  | (d, eventType, s) :: calls =>
    (t.transform lib d eventType s).2 ::
      transformAll (t.transform lib d eventType s).1 calls

/-- Two transforms that process all events alike. -/
def Alike (t u : Transform φ δ χ θ ρ) : Prop :=
  ∀ calls, t.transformAll lib calls = u.transformAll lib calls

/-- `updateVocabulary`, which does not look at the source terms. -/
def updateVocabulary (t : Transform φ δ χ θ ρ) (v : Vocabulary) : Transform φ δ χ θ ρ :=
  { t with term := v.get t.term.termRef }

/-! ### What is read of the source terms -/

end Transform

/-- A comparison with what is read of its term. -/
def Comparison.core (c : Comparison φ δ χ θ ρ) : Comparison φ δ χ θ ρ :=
  { c with term := c.term.core }

lemma Comparison.evaluateRange_core (lib : ComparisonLibrary φ δ χ θ ρ)
    (c : Comparison φ δ χ θ ρ) (values : List (ParameterValue φ δ χ θ)) :
    c.core.evaluateRange lib values = c.evaluateRange lib values := rfl

namespace Transform

def Rule.core (r : Rule φ δ χ θ ρ) : Rule φ δ χ θ ρ :=
  { r with comparison := r.comparison.core }

/-- A transform of a kind with what is read of the source terms. -/
def Kind.core : Kind φ δ χ θ ρ → Kind φ δ χ θ ρ
  | .assignValue setValue => .assignValue setValue
  | .assignTerm src => .assignTerm src.core
  | .urlEncode src => .urlEncode src.core
  | .urlDecode src => .urlDecode src.core
  | .splitTerm src sep => .splitTerm src.core sep
  | .joinTerm src separator unique => .joinTerm src.core separator unique
  | .lookup src k => .lookup src.core k
  | .rules shortCircuit rs => .rules shortCircuit (rs.map Rule.core)
  | .regex src rs => .regex src.core rs

def core (t : Transform φ δ χ θ ρ) : Transform φ δ χ θ ρ := { t with kind := t.kind.core }

variable {lib : TransformLibrary φ δ χ θ ρ}

lemma assignEach_core (term src : Term) (strings : Bytes → List Bytes) (d : Event φ δ χ θ)
    (any : Bool) (vs : List (ParameterValue φ δ χ θ)) :
    assignEach lib term src.core strings d any vs = assignEach lib term src strings d any vs := by
  induction vs generalizing d any with
  | nil => rfl
  | cons v vs ih => simp only [assignEach, write_core, ih]

lemma joined_core (src : Term) (separator : Bytes) (unique : Bool) (seen : List Bytes)
    (result : Bytes) (vs : List (ParameterValue φ δ χ θ)) :
    joined lib src.core separator unique seen result vs =
      joined lib src separator unique seen result vs := by
  induction vs generalizing seen result with
  | nil => rfl
  | cons v vs ih => simp only [joined, write_core, ih]

lemma lookupEach_core (term src : Term) (debugMode : Bool) (k : Lookup ρ) (d : Event φ δ χ θ)
    (any : Bool) (vs : List (ParameterValue φ δ χ θ)) :
    lookupEach lib term src.core debugMode k d any vs =
      lookupEach lib term src debugMode k d any vs := by
  induction vs generalizing d any with
  | nil => rfl
  | cons v vs ih => simp only [lookupEach, write_core, ih]

lemma regexEach_core (term src : Term) (debugMode : Bool) (rs : List (RegexRule ρ))
    (d : Event φ δ χ θ) (any : Bool) (vs : List (ParameterValue φ δ χ θ)) :
    regexEach lib term src.core debugMode rs d any vs =
      regexEach lib term src debugMode rs d any vs := by
  induction vs generalizing rs d any with
  | nil => rfl
  | cons v vs ih => simp only [regexEach, write_core, ih]

lemma Rule.value_core (r : Rule φ δ χ θ ρ) (v : ParameterValue φ δ χ θ) :
    r.core.value lib v = r.value lib v := by
  have hwrite : write lib r.core.comparison.term v = write lib r.comparison.term v :=
    write_core lib _ v
  rw [Rule.value, Rule.value, hwrite]
  rfl

lemma Rule.failure_core (r : Rule φ δ χ θ ρ) (v : ParameterValue φ δ χ θ) :
    r.core.failure lib v = r.failure lib v := by
  have hwrite : write lib r.core.comparison.term v = write lib r.comparison.term v :=
    write_core lib _ v
  rw [Rule.failure, Rule.failure, hwrite]
  rfl

lemma ruleEach_core (term : Term) (debugMode : Bool) (r : Rule φ δ χ θ ρ) (d : Event φ δ χ θ)
    (any : Bool) (vs : List (ParameterValue φ δ χ θ)) :
    ruleEach lib term debugMode r.core d any vs = ruleEach lib term debugMode r d any vs := by
  induction vs generalizing d any with
  | nil => rfl
  | cons v vs ih =>
    have hrange : r.core.comparison.evaluateRange lib.toComparisonLibrary [v] =
        r.comparison.evaluateRange lib.toComparisonLibrary [v] := rfl
    simp only [ruleEach, hrange, Rule.value_core, Rule.failure_core, ih]

lemma Rule.apply_core (term : Term) (debugMode : Bool) (eventType : ℕ) (s : Event φ δ χ θ)
    (r : Rule φ δ χ θ ρ) (d : Event φ δ χ θ) (any : Bool) :
    r.core.apply lib term debugMode eventType s d any =
      r.apply lib term debugMode eventType s d any := by
  have htype : r.core.comparison.type = r.comparison.type := rfl
  have href : r.core.comparison.term.termRef = r.comparison.term.termRef := rfl
  have hvalue : r.core.setValue = r.setValue := rfl
  simp only [Rule.apply, htype, href, hvalue, ruleEach_core]

lemma applyRules_core (term : Term) (debugMode shortCircuit : Bool) (eventType : ℕ)
    (s : Event φ δ χ θ) (rs : List (Rule φ δ χ θ ρ)) (d : Event φ δ χ θ) (any : Bool) :
    applyRules lib term debugMode shortCircuit eventType s (rs.map Rule.core) d any =
      ((applyRules lib term debugMode shortCircuit eventType s rs d any).1.map Rule.core,
        (applyRules lib term debugMode shortCircuit eventType s rs d any).2) := by
  induction rs generalizing d any with
  | nil => rfl
  | cons r rs ih =>
    have hrunning : r.core.running = r.running := rfl
    rw [List.map_cons, applyRules, applyRules, hrunning]
    by_cases hrun : r.running = true
    · rw [if_pos hrun, if_pos hrun, Rule.apply_core]
      cases happly : r.apply lib term debugMode eventType s d any with
      | mk running assigned =>
        obtain ⟨d', error | any'⟩ := assigned
        · rfl
        · dsimp only
          split_ifs
          · rfl
          · rw [ih]
            rfl
    · rw [if_neg hrun, if_neg hrun, ih]
      rfl

/-- A transform reads nothing else of its source terms. -/
lemma transform_core (t : Transform φ δ χ θ ρ) (d : Event φ δ χ θ) (eventType : ℕ)
    (s : Event φ δ χ θ) : t.core.transform lib d eventType s =
      ((t.transform lib d eventType s).1.core, (t.transform lib d eventType s).2) := by
  obtain ⟨term, debugMode, kind⟩ := t
  cases kind with
  | assignValue setValue => rfl
  | assignTerm src | urlEncode src | urlDecode src | splitTerm src sep =>
    exact Prod.ext rfl (assignEach_core term src _ d false _)
  | joinTerm src separator unique =>
    simp only [transform, core, Kind.core, Term.core_termRef, joined_core]
    cases joined lib src separator unique [] [] (Comparison.valuesRange s src.termRef) <;> rfl
  | lookup src k =>
    simp only [transform, core, Kind.core, Term.core_termRef, lookupEach_core]
    split_ifs <;> rfl
  | rules shortCircuit rules =>
    simp only [transform, core, Kind.core, applyRules_core]
  | regex src rules =>
    simp only [transform, core, Kind.core, Term.core_termRef, regexEach_core]

lemma transformAll_core (t : Transform φ δ χ θ ρ)
    (calls : List (Event φ δ χ θ × ℕ × Event φ δ χ θ)) :
    t.core.transformAll lib calls = t.transformAll lib calls := by
  induction calls generalizing t with
  | nil => rfl
  | cons call calls ih =>
    obtain ⟨d, eventType, s⟩ := call
    rw [transformAll, transformAll, transform_core, ih]

lemma alike_of_core {t u : Transform φ δ χ θ ρ} (h : t.core = u.core) : Alike lib t u :=
  fun calls => by rw [← transformAll_core, h, transformAll_core]

end Transform

end PionCore.Platform
