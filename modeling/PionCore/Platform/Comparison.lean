/-
# Comparisons

A comparison is configured for a term, and then evaluated for the values that events have of it.
`configure` decides by the type of the term which types of comparison it takes, and how it stores
the value; `evaluate` decides once more by the type of the term how the value is to be read.

Collation, regular expressions, floating point numbers and times are parameters.
-/
import PionCore.Platform.Event
import PionCore.Platform.LogCodec

namespace PionCore.Platform

open PionCore.Lib
open LogCodec (cString)

/-- The alternatives of `ParameterValue`. -/
inductive Alternative where
  | int32 | uint32 | int64 | uint64 | float | double | longDouble | dateTime | blob
deriving DecidableEq

/-- The alternative that `boost::get` finds. -/
def ParameterValue.alternative {φ δ χ θ : Type*} : ParameterValue φ δ χ θ → Alternative
  | .int32 _ => .int32
  | .uint32 _ => .uint32
  | .int64 _ => .int64
  | .uint64 _ => .uint64
  | .float _ => .float
  | .double _ => .double
  | .longDouble _ => .longDouble
  | .dateTime _ => .dateTime
  | .blob _ => .blob

/-- `Comparison::ComparisonType`. -/
inductive ComparisonType where
  | false | true | isDefined | isNotDefined
  | equals | notEquals | greaterThan | lessThan | greaterOrEqual | lessOrEqual
  | exactMatch | notExactMatch | contains | notContains | startsWith | notStartsWith
  | endsWith | notEndsWith | orderedBefore | notOrderedBefore | orderedAfter | notOrderedAfter
  | regex | notRegex
  | exactMatchPrimary | notExactMatchPrimary | containsPrimary | notContainsPrimary
  | startsWithPrimary | notStartsWithPrimary | endsWithPrimary | notEndsWithPrimary
  | orderedBeforePrimary | notOrderedBeforePrimary | orderedAfterPrimary | notOrderedAfterPrimary
  | sameDateTime | notSameDateTime | earlierDateTime | laterDateTime | sameOrEarlierDateTime
  | sameOrLaterDateTime
  | sameDate | notSameDate | earlierDate | laterDate | sameOrEarlierDate | sameOrLaterDate
  | sameTime | notSameTime | earlierTime | laterTime | sameOrEarlierTime | sameOrLaterTime
deriving DecidableEq

/-- `comparison_info`, without the name. -/
structure ComparisonInfo where
  arity : ℕ := 2
  isGeneric : Bool := .false
  appliesToNumericTerms : Bool := .false
  appliesToStringTerms : Bool := .false
  appliesToDateTimeTerms : Bool := .false
  appliesToDateTerms : Bool := .false
  appliesToTimeTerms : Bool := .false
deriving DecidableEq

/-- The comparison of two numbers or times. -/
inductive Relation where
  | equal | greater | less | greaterOrEqual | lessOrEqual
deriving DecidableEq

/-- The parts of a time that are compared. -/
inductive DateTimePart where
  | dateTime | date | time
deriving DecidableEq

/-- The classes of `ComparisonFunctor`. -/
inductive StringComparison where
  | exactMatch | contains | startsWith | endsWith | orderedBefore | orderedAfter
deriving DecidableEq

/-- `ComparisonFunctor`, with the pattern up to its first zero. -/
structure ComparisonFunctor where
  comparison : StringComparison
  primary : Bool
  pattern : Bytes
deriving DecidableEq

/-- What `evaluateRange` does with the values, by the type of the comparison: `negate` turns the
result around. -/
inductive Evaluation where
  | constant (result : Bool)
  | defined (negate : Bool)
  | numeric (r : Relation) (negate : Bool)
  | string (negate : Bool)
  | regex (negate : Bool)
  | dateTime (part : DateTimePart) (r : Relation) (negate : Bool)
deriving DecidableEq

namespace ComparisonType

def genericInfo : ComparisonInfo := ⟨1, .true, .true, .true, .true, .true, .true⟩

/-- `comparison_table`. -/
def info : ComparisonType → ComparisonInfo
  | false | true | isDefined | isNotDefined => genericInfo
  | equals | notEquals | greaterThan | lessThan | greaterOrEqual | lessOrEqual =>
      { appliesToNumericTerms := .true }
  | exactMatch | notExactMatch | contains | notContains | startsWith | notStartsWith
  | endsWith | notEndsWith | orderedBefore | notOrderedBefore | orderedAfter | notOrderedAfter
  | regex | notRegex
  | exactMatchPrimary | notExactMatchPrimary | containsPrimary | notContainsPrimary
  | startsWithPrimary | notStartsWithPrimary | endsWithPrimary | notEndsWithPrimary
  | orderedBeforePrimary | notOrderedBeforePrimary | orderedAfterPrimary
  | notOrderedAfterPrimary => { appliesToStringTerms := .true }
  | sameDateTime | notSameDateTime | earlierDateTime | laterDateTime | sameOrEarlierDateTime
  | sameOrLaterDateTime => { appliesToDateTimeTerms := .true }
  | sameDate | notSameDate | earlierDate | laterDate | sameOrEarlierDate | sameOrLaterDate =>
      { appliesToDateTimeTerms := .true, appliesToDateTerms := .true }
  | sameTime | notSameTime | earlierTime | laterTime | sameOrEarlierTime | sameOrLaterTime =>
      { appliesToDateTimeTerms := .true, appliesToTimeTerms := .true }

def requiresValue (t : ComparisonType) : Bool := 1 < t.info.arity

/-- `checkForValidType`. -/
def checkForValidType (t : ComparisonType) (type : DataType) : Bool :=
  if t.info.isGeneric = .true then .true
  else
    match type with
    | .null | .object => .false
    | .int8 | .uint8 | .int16 | .uint16 | .int32 | .uint32 | .int64 | .uint64
    | .float | .double | .longDouble => t.info.appliesToNumericTerms
    | .shortString | .string | .longString | .char | .blob | .zblob => t.info.appliesToStringTerms
    | .dateTime => t.info.appliesToDateTimeTerms
    | .date => t.info.appliesToDateTerms
    | .time => t.info.appliesToTimeTerms

/-- The functor that `configure` makes; `none` is its exception, `some none` no functor. -/
def functor (t : ComparisonType) (value : Bytes) : Option (Option ComparisonFunctor) :=
  match t with
  | exactMatch | notExactMatch => some (some ⟨.exactMatch, .false, value⟩)
  | exactMatchPrimary | notExactMatchPrimary => some (some ⟨.exactMatch, .true, value⟩)
  | contains | notContains => some (some ⟨.contains, .false, value⟩)
  | containsPrimary | notContainsPrimary => some (some ⟨.contains, .true, value⟩)
  | startsWith | notStartsWith => some (some ⟨.startsWith, .false, value⟩)
  | startsWithPrimary | notStartsWithPrimary => some (some ⟨.startsWith, .true, value⟩)
  | endsWith | notEndsWith => some (some ⟨.endsWith, .false, value⟩)
  | endsWithPrimary | notEndsWithPrimary => some (some ⟨.endsWith, .true, value⟩)
  | orderedBefore | notOrderedBefore => some (some ⟨.orderedBefore, .false, value⟩)
  | orderedBeforePrimary | notOrderedBeforePrimary => some (some ⟨.orderedBefore, .true, value⟩)
  | orderedAfter | notOrderedAfter => some (some ⟨.orderedAfter, .false, value⟩)
  | orderedAfterPrimary | notOrderedAfterPrimary => some (some ⟨.orderedAfter, .true, value⟩)
  | false | true | isDefined | isNotDefined | regex | notRegex => some none
  | _ => none

/-- The cases of `evaluateRange`. -/
def evaluation : ComparisonType → Evaluation
  | false => .constant .false
  | true => .constant .true
  | isDefined => .defined .false
  | isNotDefined => .defined .true
  | equals => .numeric .equal .false
  | notEquals => .numeric .equal .true
  | greaterThan => .numeric .greater .false
  | lessThan => .numeric .less .false
  | greaterOrEqual => .numeric .greaterOrEqual .false
  | lessOrEqual => .numeric .lessOrEqual .false
  | notExactMatch | notExactMatchPrimary | notContains | notContainsPrimary
  | notStartsWith | notStartsWithPrimary | notEndsWith | notEndsWithPrimary
  | notOrderedBefore | notOrderedBeforePrimary | notOrderedAfter | notOrderedAfterPrimary =>
      .string .true
  | exactMatch | exactMatchPrimary | contains | containsPrimary
  | startsWith | startsWithPrimary | endsWith | endsWithPrimary
  | orderedBefore | orderedBeforePrimary | orderedAfter | orderedAfterPrimary => .string .false
  | regex => .regex .false
  | notRegex => .regex .true
  | sameDateTime => .dateTime .dateTime .equal .false
  | notSameDateTime => .dateTime .dateTime .equal .true
  | earlierDateTime => .dateTime .dateTime .less .false
  | laterDateTime => .dateTime .dateTime .greater .false
  | sameOrEarlierDateTime => .dateTime .dateTime .lessOrEqual .false
  | sameOrLaterDateTime => .dateTime .dateTime .greaterOrEqual .false
  | sameDate => .dateTime .date .equal .false
  | notSameDate => .dateTime .date .equal .true
  | earlierDate => .dateTime .date .less .false
  | laterDate => .dateTime .date .greater .false
  | sameOrEarlierDate => .dateTime .date .lessOrEqual .false
  | sameOrLaterDate => .dateTime .date .greaterOrEqual .false
  | sameTime => .dateTime .time .equal .false
  | notSameTime => .dateTime .time .equal .true
  | earlierTime => .dateTime .time .less .false
  | laterTime => .dateTime .time .greater .false
  | sameOrEarlierTime => .dateTime .time .lessOrEqual .false
  | sameOrLaterTime => .dateTime .time .greaterOrEqual .false

end ComparisonType

namespace DataType

/-- The alternative of the numbers of a type; the types without one end `evaluateRange` with an
exception. -/
def numericAlternative : DataType → Option Alternative
  | .int8 | .int16 | .int32 => some .int32
  | .int64 => some .int64
  | .uint8 | .uint16 | .uint32 => some .uint32
  | .uint64 => some .uint64
  | .float => some .float
  | .double => some .double
  | .longDouble => some .longDouble
  | _ => none

def isString : DataType → Bool
  | .shortString | .string | .longString | .char | .blob | .zblob => true
  | _ => false

/-- The alternative that `configure` requires of a value which is no string. -/
def valueAlternative : DataType → Option Alternative
  | .dateTime | .date | .time => some .dateTime
  | type => type.numericAlternative

/-- The alternative of the values that events have of a type. -/
def eventAlternative (type : DataType) : Option Alternative :=
  if type.isString = true then some .blob else type.valueAlternative

end DataType

/-- The assertions of `evaluateRange` on the type of the term. -/
def DateTimePart.allows (part : DateTimePart) (type : DataType) : Bool :=
  match part with
  | .dateTime => type = .dateTime
  | .date => type = .dateTime || type = .date
  | .time => type = .dateTime || type = .time

/-- The relation of two integers. -/
def Relation.holds {α : Type*} [DecidableEq α] [LT α] [LE α] [DecidableLT α] [DecidableLE α]
    (r : Relation) (a b : α) : Bool :=
  match r with
  | .equal => a = b
  | .greater => b < a
  | .less => a < b
  | .greaterOrEqual => b ≤ a
  | .lessOrEqual => a ≤ b

/-- What is not in the code of comparisons: the conversions, ICU, `boost::u32regex`, and the orders
of floating point numbers and times. -/
structure ComparisonLibrary (φ δ χ θ ρ : Type*) where
  conv : Conversions φ δ χ θ
  /-- does `u_strFromUTF8` succeed? -/
  isUTF8 : Bytes → Bool
  /-- does the collator open, and is there memory for the pattern? -/
  opensFunctor : ComparisonFunctor → Bool
  /-- the comparison of a text and a pattern that are not empty -/
  collate : StringComparison → Bool → Bytes → Bytes → Bool
  emptyRegex : ρ
  makeRegex : Bytes → Option ρ
  /-- `boost::u32regex_search`, which throws for a text that is no UTF-8, or that is too complex -/
  searchRegex : ρ → Bytes → Option Bool
  float : Relation → φ → φ → Bool
  double : Relation → δ → δ → Bool
  longDouble : Relation → χ → χ → Bool
  dateTime : DateTimePart → Relation → θ → θ → Bool

/-- `Comparison`. -/
structure Comparison (φ δ χ θ ρ : Type*) where
  term : Term
  type : ComparisonType := .false
  value : ParameterValue φ δ χ θ := .int32 0
  strValue : Bytes := []
  comparisonFunc : Option ComparisonFunctor := none
  regex : ρ
  regexStr : Bytes := []
  matchAllValues : Bool := false
  running : Bool := true
  debugMode : Bool := false

/-- The exceptions of `configure`. -/
inductive ConfigureError where
  | invalidTypeForTerm
  | invalidValueForType
  | unexpectedICUErrorCode
  | invalidComparison
  | badExpression
deriving DecidableEq

/-- How `evaluate` ends without a result. -/
inductive EvaluateError where
  | invalidComparison
  /-- `boost::get` finds another alternative -/
  | badGet
  | regexFailure
  /-- an assertion on the type of the term -/
  | assertion
  /-- there is no functor -/
  | nullPointer
deriving DecidableEq

/-- The comparison of a text with the pattern. -/
def ComparisonFunctor.apply (collate : StringComparison → Bool → Bytes → Bytes → Bool)
    (f : ComparisonFunctor) (text : Bytes) : Bool :=
  if f.pattern = [] then
    match f.comparison with
    | .exactMatch => text = []
    | .contains | .startsWith | .endsWith => true
    | .orderedBefore => false
    | .orderedAfter => text ≠ []
  else if text = [] then f.comparison = .orderedBefore
  else collate f.comparison f.primary text f.pattern

namespace Comparison

variable {φ δ χ θ ρ : Type*} (lib : ComparisonLibrary φ δ χ θ ρ)

/-- The constructor. -/
def new (term : Term) (debugMode : Bool) : Comparison φ δ χ θ ρ :=
  { term := term, regex := lib.emptyRegex, debugMode := debugMode }

/-! ### Configuration

The functions give the comparison they leave, and their exception. -/

/-- A string is converted to the type of the term. -/
def convertValue (c : Comparison φ δ χ θ ρ) (value : Bytes) :
    Option (Comparison φ δ χ θ ρ) :=
  match c.term.termType with
  | .null | .object => some c
  | .int8 | .int16 | .int32 => (lib.conv.toInt32 value).map fun v => { c with value := .int32 v }
  | .int64 => (lib.conv.toInt64 value).map fun v => { c with value := .int64 v }
  | .uint8 | .uint16 | .uint32 =>
      (lib.conv.toUInt32 value).map fun v => { c with value := .uint32 v }
  | .uint64 => (lib.conv.toUInt64 value).map fun v => { c with value := .uint64 v }
  | .float => (lib.conv.toFloat value).map fun v => { c with value := .float v }
  | .double => (lib.conv.toDouble value).map fun v => { c with value := .double v }
  | .longDouble => (lib.conv.toLongDouble value).map fun v => { c with value := .longDouble v }
  | .shortString | .string | .longString | .char | .blob | .zblob =>
      some { c with strValue := value }
  | .dateTime | .date | .time =>
      (lib.conv.toDateTime c.term.termFormat value).map fun v => { c with value := .dateTime v }

/-- The value of `configure`, for a type that is valid for the term. -/
def setValue (c : Comparison φ δ χ θ ρ) (type : ComparisonType) (value : Bytes) :
    Comparison φ δ χ θ ρ × Option ConfigureError :=
  if type = .regex ∨ type = .notRegex then
    match lib.makeRegex value with
    | none => (c, some .badExpression)
    | some regex => ({ c with regex := regex, regexStr := value }, none)
  else if type.info.appliesToStringTerms = true then
    match type.functor (cString value) with
    | none => ({ c with strValue := value }, some .invalidComparison)
    | some none => ({ c with strValue := value }, none)
    | some (some f) =>
        if lib.opensFunctor f = true then
          ({ c with strValue := value, comparisonFunc := some f }, none)
        else ({ c with strValue := value }, some .unexpectedICUErrorCode)
  else if type.requiresValue = true then
    match c.convertValue lib value with
    | none => (c, some .invalidValueForType)
    | some c' => (c', none)
  else (c, none)

/-- `configure`, with a string. -/
def configure (c : Comparison φ δ χ θ ρ) (type : ComparisonType) (value : Bytes)
    (matchAllValues : Bool) : Comparison φ δ χ θ ρ × Option ConfigureError :=
  if type.checkForValidType c.term.termType = false then (c, some .invalidTypeForTerm)
  else if value ≠ [] ∧ lib.isUTF8 (cString value) = false then
    (c, some .unexpectedICUErrorCode)
  else
    match c.setValue lib type value with
    | (c', some e) => (c', some e)
    | (c', none) => ({ c' with type := type, matchAllValues := matchAllValues }, none)

/-- `configure`, with a value of another type. -/
def configureValue (c : Comparison φ δ χ θ ρ) (type : ComparisonType)
    (value : ParameterValue φ δ χ θ) (matchAllValues : Bool) :
    Comparison φ δ χ θ ρ × Option ConfigureError :=
  if type.checkForValidType c.term.termType = false then (c, some .invalidTypeForTerm)
  else
    -- the comparison has changed when the value is checked
    let c' := { c with type := type, value := value, matchAllValues := matchAllValues }
    if c.term.termType.valueAlternative = some value.alternative then (c', none)
    else (c', some .invalidValueForType)

/-- `configure`, without a value. -/
def configureType (c : Comparison φ δ χ θ ρ) (type : ComparisonType) :
    Comparison φ δ χ θ ρ × Option ConfigureError :=
  if type.checkForValidType c.term.termType = false then (c, some .invalidTypeForTerm)
  else if type.requiresValue = true then (c, some .invalidValueForType)
  else ({ c with type := type, value := .int32 0, matchAllValues := false }, none)

/-- The calls of `configure`. -/
inductive Configure (φ δ χ θ : Type*) where
  | string (type : ComparisonType) (value : Bytes) (matchAllValues : Bool)
  | value (type : ComparisonType) (value : ParameterValue φ δ χ θ) (matchAllValues : Bool)
  | type (type : ComparisonType)

def configureWith (c : Comparison φ δ χ θ ρ) :
    Configure φ δ χ θ → Comparison φ δ χ θ ρ × Option ConfigureError
  | .string type value matchAllValues => c.configure lib type value matchAllValues
  | .value type value matchAllValues => c.configureValue type value matchAllValues
  | .type type => c.configureType type

/-- `updateVocabulary`, unless it throws. -/
def updateVocabulary (c : Comparison φ δ χ θ ρ) (v : Vocabulary) :
    Except VocabularyError (Comparison φ δ χ θ ρ) :=
  (v.refreshTerm c.term).map fun term => { c with term := term }

/-! ### Evaluation -/

/-- The values are compared until the result is known. -/
def checkComparison (matchAllValues : Bool)
    (f : ParameterValue φ δ χ θ → Except EvaluateError Bool) :
    List (ParameterValue φ δ χ θ) → Except EvaluateError Bool
  | [] => .ok matchAllValues
  | value :: values =>
      match f value with
      | .error e => .error e
      | .ok b => if b = matchAllValues then checkComparison matchAllValues f values else .ok b

/-- The helper classes for numbers, with the value of the event on the left. -/
def compareNumbers (r : Relation) :
    ParameterValue φ δ χ θ → ParameterValue φ δ χ θ → Except EvaluateError Bool
  | .int32 a, .int32 b => .ok (r.holds a b)
  | .uint32 a, .uint32 b => .ok (r.holds a b)
  | .int64 a, .int64 b => .ok (r.holds a b)
  | .uint64 a, .uint64 b => .ok (r.holds a b)
  | .float a, .float b => .ok (lib.float r a b)
  | .double a, .double b => .ok (lib.double r a b)
  | .longDouble a, .longDouble b => .ok (lib.longDouble r a b)
  | _, _ => .error .badGet

def evaluateNumeric (c : Comparison φ δ χ θ ρ) (r : Relation)
    (values : List (ParameterValue φ δ χ θ)) : Except EvaluateError Bool :=
  match c.term.termType.numericAlternative with
  | none => .error .invalidComparison
  | some alternative =>
      -- the helper reads the value before it sees the event
      if c.value.alternative ≠ alternative then .error .badGet
      else checkComparison c.matchAllValues (fun v => compareNumbers lib r v c.value) values

def evaluateString (c : Comparison φ δ χ θ ρ) (values : List (ParameterValue φ δ χ θ)) :
    Except EvaluateError Bool :=
  if c.term.termType.isString = true then
    match c.comparisonFunc with
    | none => .error .nullPointer
    | some f =>
        let compare : ParameterValue φ δ χ θ → Except EvaluateError Bool
          | .blob text => .ok (f.apply lib.collate text)
          | _ => .error .badGet
        checkComparison c.matchAllValues compare values
  else .error .invalidComparison

/-- `CompareStringRegex`. -/
def compareRegex (regex : ρ) : ParameterValue φ δ χ θ → Except EvaluateError Bool
  | .blob text =>
      match lib.searchRegex regex (cString text) with
      | some b => .ok b
      | none => .error .regexFailure
  | _ => .error .badGet

def evaluateRegex (c : Comparison φ δ χ θ ρ) (values : List (ParameterValue φ δ χ θ)) :
    Except EvaluateError Bool :=
  if c.term.termType.isString = true then
    checkComparison c.matchAllValues (compareRegex lib c.regex) values
  else .error .invalidComparison

def compareDateTime (part : DateTimePart) (r : Relation) :
    ParameterValue φ δ χ θ → ParameterValue φ δ χ θ → Except EvaluateError Bool
  | .dateTime a, .dateTime b => .ok (lib.dateTime part r a b)
  | _, _ => .error .badGet

def evaluateDateTime (c : Comparison φ δ χ θ ρ) (part : DateTimePart) (r : Relation)
    (values : List (ParameterValue φ δ χ θ)) : Except EvaluateError Bool :=
  if part.allows c.term.termType = false then .error .assertion
  else if c.value.alternative ≠ .dateTime then .error .badGet
  else checkComparison c.matchAllValues (fun v => compareDateTime lib part r v c.value) values

def evaluateRange (c : Comparison φ δ χ θ ρ) (values : List (ParameterValue φ δ χ θ)) :
    Except EvaluateError Bool :=
  match c.type.evaluation with
  | .constant result => .ok result
  | .defined negate => .ok (values.isEmpty == negate)
  | .numeric r negate => (c.evaluateNumeric lib r values).map (xor negate)
  | .string negate => (c.evaluateString lib values).map (xor negate)
  | .regex negate => (c.evaluateRegex lib values).map (xor negate)
  | .dateTime part r negate => (c.evaluateDateTime lib part r values).map (xor negate)

/-- `equal_range`. -/
def valuesRange (e : Event φ δ χ θ) (termRef : ℕ) : List (ParameterValue φ δ χ θ) :=
  (SortedMultimap.range (SortedMultimap.lowerBound termRef e)
    (SortedMultimap.upperBound termRef e) e).map Prod.snd

/-- `evaluate`, for an event of a type. -/
def evaluate (c : Comparison φ δ χ θ ρ) (eventType : ℕ) (e : Event φ δ χ θ) :
    Except EvaluateError Bool :=
  if (c.type = .isDefined ∨ c.type = .isNotDefined) ∧ eventType = c.term.termRef then
    .ok (c.type = .isDefined)
  else c.evaluateRange lib (valuesRange e c.term.termRef)

/-- The comparison behind `evaluate`: it is disabled by a regular expression that cannot be
searched. -/
def evaluated (c : Comparison φ δ χ θ ρ) (eventType : ℕ) (e : Event φ δ χ θ) :
    Comparison φ δ χ θ ρ :=
  if c.evaluate lib eventType e = .error .regexFailure ∧ c.debugMode = false then
    { c with running := false }
  else c

/-! ### The two case analyses -/

end Comparison

/-- The entry of the table for each case of `evaluateRange`. -/
def Evaluation.info : Evaluation → ComparisonInfo
  | .constant _ | .defined _ => ComparisonType.genericInfo
  | .numeric _ _ => { appliesToNumericTerms := true }
  | .string _ | .regex _ => { appliesToStringTerms := true }
  | .dateTime .dateTime _ _ => { appliesToDateTimeTerms := true }
  | .dateTime .date _ _ => { appliesToDateTimeTerms := true, appliesToDateTerms := true }
  | .dateTime .time _ _ => { appliesToDateTimeTerms := true, appliesToTimeTerms := true }

/-- The types of terms for which a case of `evaluateRange` has a result. -/
def Evaluation.suits (type : DataType) : Evaluation → Bool
  | .constant _ | .defined _ => true
  | .numeric _ _ => type.numericAlternative.isSome
  | .string _ | .regex _ => type.isString
  | .dateTime part _ _ => part.allows type

namespace ComparisonType

lemma info_eq (t : ComparisonType) : t.info = t.evaluation.info := by
  cases t <;> rfl

/-- What `configure` takes for a term is what `evaluateRange` has a result for. -/
lemma checkForValidType_eq (t : ComparisonType) (type : DataType) :
    t.checkForValidType type = t.evaluation.suits type := by
  rw [checkForValidType.eq_def, info_eq]
  cases t.evaluation with
  | constant result => rfl
  | defined negate => rfl
  | numeric r negate => cases type <;> rfl
  | string negate => cases type <;> rfl
  | regex negate => cases type <;> rfl
  | dateTime part r negate => cases part <;> cases type <;> rfl

lemma evaluation_regex {t : ComparisonType} (h : t = regex ∨ t = notRegex) :
    ∃ negate, t.evaluation = .regex negate := by
  rcases h with rfl | rfl
  · exact ⟨_, rfl⟩
  · exact ⟨_, rfl⟩

lemma regex_of_evaluation {t : ComparisonType} {negate : Bool}
    (h : t.evaluation = .regex negate) : t = regex ∨ t = notRegex := by
  cases t <;> simp_all [evaluation]

/-- The comparisons of strings have a functor. -/
lemma functor_of_evaluation {t : ComparisonType} {negate : Bool} (value : Bytes)
    (h : t.evaluation = .string negate) : ∃ f, t.functor value = some (some f) := by
  cases t <;> first | exact ⟨_, rfl⟩ | cases h

end ComparisonType

namespace Comparison

variable {φ δ χ θ ρ : Type*} {lib : ComparisonLibrary φ δ χ θ ρ} {c c' : Comparison φ δ χ θ ρ}

/-- What a comparison has to be for `evaluateRange`. -/
def Fits (c : Comparison φ δ χ θ ρ) : Prop :=
  match c.type.evaluation with
  | .constant _ | .defined _ => True
  | .numeric _ _ => c.term.termType.numericAlternative = some c.value.alternative
  | .string _ => c.term.termType.isString = true ∧ c.comparisonFunc.isSome = true
  | .regex _ => c.term.termType.isString = true
  | .dateTime part _ _ =>
      part.allows c.term.termType = true ∧ c.value.alternative = .dateTime

/-- Which comparisons `configure` takes for strings. -/
lemma appliesToStringTerms_eq (t : ComparisonType) : t.info.appliesToStringTerms =
    match t.evaluation with
    | .constant _ | .defined _ | .string _ | .regex _ => true
    | _ => false := by
  rw [t.info_eq]
  cases t.evaluation with
  | dateTime part r negate => cases part <;> rfl
  | _ => rfl

lemma requiresValue_eq (t : ComparisonType) : t.requiresValue =
    match t.evaluation with
    | .constant _ | .defined _ => false
    | _ => true := by
  rw [ComparisonType.requiresValue, t.info_eq]
  cases t.evaluation with
  | dateTime part r negate => cases part <;> rfl
  | _ => rfl

/-- A value that is converted has the alternative of the type of the term. -/
lemma convertValue_spec {value : Bytes} (h : c.convertValue lib value = some c') :
    c'.term = c.term ∧ ∀ a, c.term.termType.valueAlternative = some a →
      c'.value.alternative = a := by
  rw [convertValue] at h
  cases htype : c.term.termType
  all_goals rw [htype] at h
  all_goals
    first
    | obtain ⟨v, -, rfl⟩ := Option.map_eq_some_iff.1 h
      exact ⟨rfl, fun a ha => Option.some.inj ha⟩
    | obtain rfl := Option.some.inj h
      exact ⟨rfl, fun a ha => by cases ha⟩

lemma valueAlternative_of_numeric {type : DataType} (h : type.numericAlternative.isSome = true) :
    type.valueAlternative = type.numericAlternative := by
  cases type <;> first | rfl | cases h

lemma valueAlternative_of_allows {part : DateTimePart} {type : DataType}
    (h : part.allows type = true) : type.valueAlternative = some .dateTime := by
  cases part <;> cases type <;> first | rfl | cases h

lemma valueAlternative_of_isString {type : DataType} (h : type.isString = true) :
    type.valueAlternative = none := by
  cases type <;> first | rfl | cases h

/-- A value with the alternative of the type of the term is all that a comparison of numbers or
times needs. -/
lemma fits_of_value {t : ComparisonType} {type : DataType}
    (hvalid : t.checkForValidType type = true) (htype : c.type = t)
    (hterm : c.term.termType = type)
    (hstring : ∀ negate, t.evaluation = .string negate ∨ t.evaluation = .regex negate →
      type.isString = false)
    (hvalue : ∀ a, type.valueAlternative = some a → c.value.alternative = a) : c.Fits := by
  subst htype hterm
  rw [ComparisonType.checkForValidType_eq] at hvalid
  rw [Fits]
  cases hev : c.type.evaluation with
  | constant result => trivial
  | defined negate => trivial
  | numeric r negate =>
    rw [hev, Evaluation.suits] at hvalid
    obtain ⟨a, ha⟩ := Option.isSome_iff_exists.1 hvalid
    dsimp only
    rw [ha, hvalue a (by rw [valueAlternative_of_numeric hvalid, ha])]
  | string negate =>
    rw [hev, Evaluation.suits, hstring negate (Or.inl hev)] at hvalid
    cases hvalid
  | regex negate =>
    rw [hev, Evaluation.suits, hstring negate (Or.inr hev)] at hvalid
    cases hvalid
  | dateTime part r negate =>
    rw [hev, Evaluation.suits] at hvalid
    exact ⟨hvalid, hvalue _ (valueAlternative_of_allows hvalid)⟩

/-- What the value of a string sets is what its type of comparison reads. -/
lemma setValue_fits {t : ComparisonType} {value : Bytes} {matchAllValues : Bool}
    (hvalid : t.checkForValidType c.term.termType = true) (h : c.setValue lib t value = (c', none)) :
    ({ c' with type := t, matchAllValues := matchAllValues } : Comparison φ δ χ θ ρ).Fits := by
  have hsuits := hvalid
  rw [ComparisonType.checkForValidType_eq] at hsuits
  rw [setValue] at h
  split_ifs at h with hregex hstring hvalue
  · obtain ⟨negate, hev⟩ := ComparisonType.evaluation_regex hregex
    rw [hev] at hsuits
    cases hmake : lib.makeRegex value with
    | none =>
      rw [hmake] at h
      cases h
    | some regex =>
      rw [hmake] at h
      cases h
      rw [Fits]
      dsimp only
      rw [hev]
      exact hsuits
  · rw [Fits]
    dsimp only
    rw [appliesToStringTerms_eq] at hstring
    cases hev : t.evaluation with
    | constant result => trivial
    | defined negate => trivial
    | numeric r negate =>
      rw [hev] at hstring
      cases hstring
    | string negate =>
      rw [hev] at hsuits
      obtain ⟨f, hf⟩ := ComparisonType.functor_of_evaluation (LogCodec.cString value) hev
      rw [hf] at h
      dsimp only at h
      split_ifs at h
      · cases h
        exact ⟨hsuits, rfl⟩
      · cases h
    | regex negate => exact absurd (ComparisonType.regex_of_evaluation hev) hregex
    | dateTime part r negate =>
      rw [hev] at hstring
      cases hstring
  · cases hconvert : c.convertValue lib value with
    | none =>
      rw [hconvert] at h
      cases h
    | some d =>
      rw [hconvert] at h
      cases h
      obtain ⟨hterm, halternative⟩ := convertValue_spec hconvert
      refine fits_of_value hvalid rfl (by rw [hterm]) ?_ halternative
      intro negate hev
      rw [appliesToStringTerms_eq] at hstring
      rcases hev with hev | hev <;> rw [hev] at hstring <;> exact absurd rfl hstring
  · rw [Fits]
    dsimp only
    rw [requiresValue_eq] at hvalue
    -- only the generic comparisons take no value
    cases hev : t.evaluation with
    | constant result => trivial
    | defined negate => trivial
    | _ => rw [hev] at hvalue; exact absurd rfl hvalue

lemma setValue_term {t : ComparisonType} {value : Bytes}
    (h : c.setValue lib t value = (c', none)) : c'.term = c.term := by
  rw [setValue] at h
  split_ifs at h
  · cases hmake : lib.makeRegex value with
    | none => rw [hmake] at h; cases h
    | some regex => rw [hmake] at h; cases h; rfl
  · rcases hf : t.functor (LogCodec.cString value) with _ | _ | f
    · rw [hf] at h
      cases h
    · rw [hf] at h
      cases h
      rfl
    · rw [hf] at h
      dsimp only at h
      split_ifs at h <;> cases h
      rfl
  · cases hconvert : c.convertValue lib value with
    | none => rw [hconvert] at h; cases h
    | some d => rw [hconvert] at h; cases h; exact (convertValue_spec hconvert).1
  · cases h
    rfl

/-- What `configure` accepts can be evaluated. -/
lemma fits_of_configureWith {call : Configure φ δ χ θ}
    (h : c.configureWith lib call = (c', none)) : c'.Fits ∧
      c'.type.checkForValidType c'.term.termType = true := by
  cases call with
  | string t value matchAllValues =>
    rw [configureWith, configure] at h
    split_ifs at h with hvalid
    · cases h
    · cases h
    · rw [Bool.not_eq_false] at hvalid
      rcases hset : c.setValue lib t value with ⟨d, e⟩
      rw [hset] at h
      cases e with
      | some e => cases h
      | none =>
        cases h
        refine ⟨setValue_fits hvalid hset, ?_⟩
        rw [setValue_term hset]
        exact hvalid
  | value t value matchAllValues =>
    rw [configureWith, configureValue] at h
    split_ifs at h with hvalid halternative
    · cases h
    · cases h
      rw [Bool.not_eq_false] at hvalid
      refine ⟨fits_of_value hvalid rfl rfl ?_ fun a ha => ?_, hvalid⟩
      · intro negate hev
        by_contra hstring
        rw [valueAlternative_of_isString (Bool.not_eq_false _ ▸ hstring)] at halternative
        cases halternative
      · exact Option.some.inj (halternative.symm.trans ha)
    · cases h
  | type t =>
    rw [configureWith, configureType] at h
    split_ifs at h with hvalid hvalue
    · cases h
    · cases h
    · cases h
      rw [Bool.not_eq_false] at hvalid
      refine ⟨?_, hvalid⟩
      rw [Fits]
      dsimp only
      rw [requiresValue_eq] at hvalue
      cases hev : t.evaluation with
      | constant result => trivial
      | defined negate => trivial
      | _ => rw [hev] at hvalue; exact absurd rfl hvalue

/-! ### Safety -/

/-- A comparison of values throws nothing but what one of them does. -/
lemma error_of_checkComparison {matchAllValues : Bool}
    {f : ParameterValue φ δ χ θ → Except EvaluateError Bool}
    {values : List (ParameterValue φ δ χ θ)} {error : EvaluateError}
    (h : checkComparison matchAllValues f values = .error error) :
    ∃ value ∈ values, f value = .error error := by
  induction values with
  | nil => cases h
  | cons value values ih =>
    rw [checkComparison] at h
    cases hf : f value with
    | error e =>
      rw [hf] at h
      cases h
      exact ⟨value, List.mem_cons_self, hf⟩
    | ok b =>
      rw [hf] at h
      dsimp only at h
      split_ifs at h
      obtain ⟨u, hu, herror⟩ := ih h
      exact ⟨u, List.mem_cons_of_mem _ hu, herror⟩

/-- Two numbers of one type are compared. -/
lemma compareNumbers_ok {r : Relation} {type : DataType} {a : Alternative}
    (htype : type.numericAlternative = some a) {u v : ParameterValue φ δ χ θ}
    (hu : u.alternative = a) (hv : v.alternative = a) : ∃ b, compareNumbers lib r u v = .ok b := by
  subst hu
  cases u with
  | dateTime t => cases type <;> cases htype
  | blob t => cases type <;> cases htype
  | _ => cases v <;> first | exact ⟨_, rfl⟩ | cases hv

lemma map_eq_error {α β : Type*} {f : α → β} {x : Except EvaluateError α} {error : EvaluateError}
    (h : x.map f = .error error) : x = .error error := by
  cases x with
  | error e => exact congrArg Except.error (Except.error.inj h)
  | ok a => cases h

lemma compareDateTime_ok (part : DateTimePart) (r : Relation) {u v : ParameterValue φ δ χ θ}
    (hu : u.alternative = .dateTime) (hv : v.alternative = .dateTime) :
    ∃ b, compareDateTime lib part r u v = .ok b := by
  cases u with
  | dateTime s =>
    cases v with
    | dateTime t => exact ⟨_, rfl⟩
    | _ => cases hv
  | _ => cases hu

lemma exists_blob {type : DataType} (hstring : type.isString = true)
    {v : ParameterValue φ δ χ θ} (hv : type.eventAlternative = some v.alternative) :
    ∃ text, v = .blob text := by
  rw [DataType.eventAlternative, if_pos hstring] at hv
  cases v with
  | blob text => exact ⟨text, rfl⟩
  | _ => cases hv

lemma eventAlternative_of_allows {part : DateTimePart} {type : DataType}
    (h : part.allows type = true) : type.eventAlternative = some .dateTime := by
  cases part <;> cases type <;> first | rfl | cases h

/-- With values of the type of the term, only a regular expression throws. -/
lemma Fits.evaluateRange (h : c.Fits) {values : List (ParameterValue φ δ χ θ)}
    (htyped : ∀ v ∈ values, c.term.termType.eventAlternative = some v.alternative)
    {error : EvaluateError} (herror : c.evaluateRange lib values = .error error) :
    error = .regexFailure ∧ (c.type = .regex ∨ c.type = .notRegex) := by
  rw [Comparison.evaluateRange] at herror
  rw [Fits] at h
  cases hev : c.type.evaluation with
  | constant result => rw [hev] at herror; cases herror
  | defined negate => rw [hev] at herror; cases herror
  | numeric r negate =>
    rw [hev] at herror h
    have hnot : c.term.termType.isString = false := by
      by_contra hstring
      have hnone := valueAlternative_of_isString (Bool.not_eq_false _ ▸ hstring)
      rw [valueAlternative_of_numeric (by rw [h]; rfl), h] at hnone
      cases hnone
    have herror := map_eq_error herror
    rw [evaluateNumeric, h] at herror
    dsimp only at herror
    rw [if_neg (not_not_intro rfl)] at herror
    obtain ⟨v, hv, hcompare⟩ := error_of_checkComparison herror
    have halternative := htyped v hv
    rw [DataType.eventAlternative, hnot, if_neg Bool.false_ne_true,
      valueAlternative_of_numeric (by rw [h]; rfl), h] at halternative
    obtain ⟨b, hb⟩ := compareNumbers_ok h (Option.some.inj halternative).symm rfl
    rw [hb] at hcompare
    cases hcompare
  | string negate =>
    rw [hev] at herror h
    have herror := map_eq_error herror
    obtain ⟨f, hf⟩ := Option.isSome_iff_exists.1 h.2
    rw [evaluateString, if_pos h.1, hf] at herror
    dsimp only at herror
    obtain ⟨v, hv, hcompare⟩ := error_of_checkComparison herror
    obtain ⟨text, rfl⟩ := exists_blob h.1 (htyped v hv)
    cases hcompare
  | regex negate =>
    rw [hev] at herror h
    have herror := map_eq_error herror
    rw [evaluateRegex, if_pos (show c.term.termType.isString = true from h)] at herror
    obtain ⟨v, hv, hcompare⟩ := error_of_checkComparison herror
    obtain ⟨text, rfl⟩ := exists_blob h (htyped v hv)
    rw [compareRegex] at hcompare
    cases hsearch : lib.searchRegex c.regex (LogCodec.cString text) with
    | some b => rw [hsearch] at hcompare; cases hcompare
    | none =>
      rw [hsearch] at hcompare
      exact ⟨(Except.error.inj hcompare).symm, ComparisonType.regex_of_evaluation hev⟩
  | dateTime part r negate =>
    rw [hev] at herror h
    have herror := map_eq_error herror
    rw [evaluateDateTime, h.1, if_neg (by simp),
      if_neg (not_not_intro h.2)] at herror
    obtain ⟨v, hv, hcompare⟩ := error_of_checkComparison herror
    have halternative := htyped v hv
    rw [eventAlternative_of_allows h.1] at halternative
    obtain ⟨b, hb⟩ :=
      compareDateTime_ok part r (Option.some.inj halternative).symm h.2
    rw [hb] at hcompare
    cases hcompare

/-! ### Updates -/

/-- What happens to a comparison once it is configured. -/
inductive ComparisonEvent where
  /-- the vocabulary changes -/
  | edit (e : Vocabulary.Edit)
  | updateVocabulary

/-- A comparison and the vocabulary; an update that throws leaves the comparison as it is. -/
def step (s : Vocabulary × Comparison φ δ χ θ ρ) :
    ComparisonEvent → Option (Vocabulary × Comparison φ δ χ θ ρ)
  | .edit e => some (s.1.edit e, s.2)
  | .updateVocabulary =>
      match s.2.updateVocabulary s.1 with
      | .ok c => some (s.1, c)
      | .error _ => some s

/-- The term may change as long as the comparison still applies to it, and reads its values in the
same way. -/
lemma Fits.of_term (h : c.Fits) (htype : c'.type = c.type) (hvalue : c'.value = c.value)
    (hfunc : c'.comparisonFunc = c.comparisonFunc)
    (hvalid : c'.type.checkForValidType c'.term.termType = true)
    (hnumeric : c'.type.info.isGeneric = false →
      c'.term.termType.numericAlternative = c.term.termType.numericAlternative) : c'.Fits := by
  rw [ComparisonType.checkForValidType_eq, htype] at hvalid
  rw [htype, ComparisonType.info_eq] at hnumeric
  rw [Fits] at h ⊢
  rw [htype, hvalue, hfunc]
  cases hev : c.type.evaluation with
  | constant result => trivial
  | defined negate => trivial
  | numeric r negate =>
    rw [hev] at h hnumeric
    exact (hnumeric rfl).trans h
  | string negate =>
    rw [hev] at h hvalid
    exact ⟨hvalid, h.2⟩
  | regex negate =>
    rw [hev] at hvalid
    exact hvalid
  | dateTime part r negate =>
    rw [hev] at h hvalid
    exact ⟨hvalid, h.2⟩

/-- A library for ASCII texts, in which a regular expression is a word that is searched for. -/
def asciiLibrary : ComparisonLibrary Unit Unit Unit Unit Bytes where
  conv := { Event.noNumbers with
    toInt32 := fun s => (lexicalCast.readUnsigned (2 ^ 31) s).map fun n => Int32.ofInt n }
  isUTF8 s := s.all (· < 128)
  opensFunctor _ := true
  collate comparison _ text pattern :=
    match comparison with
    | .exactMatch => text = pattern
    | .contains => text.tails.any pattern.isPrefixOf
    | .startsWith => pattern.isPrefixOf text
    | .endsWith => pattern.isSuffixOf text
    | .orderedBefore => text < pattern
    | .orderedAfter => pattern < text
  emptyRegex := []
  makeRegex := some
  searchRegex word text :=
    if text.all (· < 128) = true then some (text.tails.any word.isPrefixOf) else none
  float r _ _ := r ≠ .less && r ≠ .greater
  double r _ _ := r ≠ .less && r ≠ .greater
  longDouble r _ _ := r ≠ .less && r ≠ .greater
  dateTime _ r _ _ := r ≠ .less && r ≠ .greater

def wordTerm : Term := { termId := ascii "word", termRef := 1, termType := .string }

def countTerm : Term := { termId := ascii "count", termRef := 1, termType := .int16 }

/-- A comparison with the number five. -/
def equalsFive : Comparison Unit Unit Unit Unit Bytes :=
  ((new asciiLibrary countTerm false).configureWith asciiLibrary
    (.string .equals (ascii "5") false)).1

end Comparison

end PionCore.Platform
