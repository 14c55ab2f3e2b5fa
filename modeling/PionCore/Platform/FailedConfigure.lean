/-
# A failed configuration

`configure` with a value that is no string assigns the type, the value and the flag before it looks
at the value.  When it throws then, the comparison has the new type and flag, with a value that
cannot be compared and the pattern or the expression of the old type.  The other calls leave a
comparison that evaluates all events as before.
-/
import PionCore.Platform.Comparison

namespace PionCore.Platform

open PionCore.Lib
open LogCodec (cString)

namespace Comparison

variable {φ δ χ θ ρ : Type*} (lib : ComparisonLibrary φ δ χ θ ρ)

/-- What a comparison does: it throws for every event, has one result, asks whether the term is
defined, or compares the values of the term one after the other, with a result for none. -/
inductive Reading (φ δ χ θ : Type*) where
  | fails (error : EvaluateError)
  | constant (result : Bool)
  | defined (negate : Bool)
  | compares (forNone : Bool) (compare : ParameterValue φ δ χ θ → Except EvaluateError Bool)

/-- The comparison of numbers, strings or times, whose result may be turned around. -/
def comparing (negate matchAllValues : Bool)
    (f : ParameterValue φ δ χ θ → Except EvaluateError Bool) : Reading φ δ χ θ :=
  .compares (xor negate matchAllValues) fun v => (f v).map (xor negate)

/-- The comparison with the pattern of the functor. -/
def compareString (f : ComparisonFunctor) : ParameterValue φ δ χ θ → Except EvaluateError Bool
  | .blob text => .ok (f.apply lib.collate text)
  | _ => .error .badGet

/-- What the pattern or the expression of a comparison makes of a type and a flag. -/
def readingAs (c : Comparison φ δ χ θ ρ) (type : ComparisonType) (matchAllValues : Bool)
    (number : Relation → Bool → Reading φ δ χ θ)
    (time : DateTimePart → Relation → Bool → Reading φ δ χ θ) : Reading φ δ χ θ :=
  match type.evaluation with
  | .constant result => .constant result
  | .defined negate => .defined negate
  | .numeric r negate => number r negate
  | .string negate =>
    if c.term.termType.isString = true then
      match c.comparisonFunc with
      | none => .fails .nullPointer
      | some f => comparing negate matchAllValues (compareString lib f)
    else .fails .invalidComparison
  | .regex negate =>
    if c.term.termType.isString = true then
      comparing negate matchAllValues (compareRegex lib c.regex)
    else .fails .invalidComparison
  | .dateTime part r negate => time part r negate

/-- What a comparison does. -/
def reading (c : Comparison φ δ χ θ ρ) : Reading φ δ χ θ :=
  c.readingAs lib c.type c.matchAllValues
    (fun r negate =>
      match c.term.termType.numericAlternative with
      | none => .fails .invalidComparison
      | some alternative =>
        if c.value.alternative ≠ alternative then .fails .badGet
        else comparing negate c.matchAllValues fun v => compareNumbers lib r v c.value)
    (fun part r negate =>
      if part.allows c.term.termType = false then .fails .assertion
      else if c.value.alternative ≠ .dateTime then .fails .badGet
      else comparing negate c.matchAllValues fun v => compareDateTime lib part r v c.value)

/-- The old pattern or expression under a new type and flag, with a value that cannot be
compared. -/
def mixture (c : Comparison φ δ χ θ ρ) (type : ComparisonType) (matchAllValues : Bool) :
    Reading φ δ χ θ :=
  c.readingAs lib type matchAllValues (fun _ _ => .fails .badGet) fun _ _ _ => .fails .badGet

/-- The result for the values of an event. -/
def Reading.result (values : List (ParameterValue φ δ χ θ)) :
    Reading φ δ χ θ → Except EvaluateError Bool
  | .fails error => .error error
  | .constant result => .ok result
  | .defined negate => .ok (values.isEmpty == negate)
  | .compares forNone compare => checkComparison forNone compare values

/-- The result for an event: an event of the type of the term has it defined. -/
def Reading.evaluate (termRef eventType : ℕ) (e : Event φ δ χ θ) (r : Reading φ δ χ θ) :
    Except EvaluateError Bool :=
  match r with
  | .defined negate =>
    if eventType = termRef then .ok (! negate) else r.result (valuesRange e termRef)
  | _ => r.result (valuesRange e termRef)

/-- A type and a flag make no difference to a comparison with a value that cannot be compared, for
a type that is valid for the term. -/
def Unchanged (c : Comparison φ δ χ θ ρ) (type : ComparisonType) (matchAllValues : Bool) : Prop :=
  match type.evaluation, c.type.evaluation with
  | .constant result, .constant result' => result = result'
  | .defined negate, .defined negate' => negate = negate'
  -- the value could not be compared before
  | .numeric _ _, .numeric _ _ => c.term.termType.numericAlternative ≠ some c.value.alternative
  | .dateTime _ _ _, .dateTime part _ _ =>
    part.allows c.term.termType = true ∧ c.value.alternative ≠ .dateTime
  | .string negate, .string negate' =>
    c.comparisonFunc = none ∨ negate = negate' ∧ matchAllValues = c.matchAllValues
  | .regex negate, .regex negate' =>
    xor negate matchAllValues = xor negate' c.matchAllValues ∧
      (negate = negate' ∨ ∀ text, lib.searchRegex c.regex (cString text) = none)
  -- the pattern and the expression pass the same texts, or the other ones
  | .string negate, .regex negate' | .regex negate, .string negate' =>
    xor negate matchAllValues = xor negate' c.matchAllValues ∧
      ∃ f, c.comparisonFunc = some f ∧ ∀ text, lib.searchRegex c.regex (cString text) =
        some (xor (xor negate negate') (f.apply lib.collate text))
  | _, _ => False

/-- The call does not throw behind its assignments; or what it has assigned makes no difference. -/
def KeepsReading (c : Comparison φ δ χ θ ρ) : Configure φ δ χ θ → Prop
  | .value type _ matchAllValues =>
    type.checkForValidType c.term.termType = true → c.Unchanged lib type matchAllValues
  | .string _ _ _ | .type _ => True

variable {lib} {c c' : Comparison φ δ χ θ ρ} {values : List (ParameterValue φ δ χ θ)}

/-! ### Readings -/

/-- To turn the result around is to turn each comparison around. -/
lemma checkComparison_negate (negate matchAllValues : Bool)
    (f : ParameterValue φ δ χ θ → Except EvaluateError Bool) :
    (checkComparison matchAllValues f values).map (xor negate) =
      checkComparison (xor negate matchAllValues) (fun v => (f v).map (xor negate)) values := by
  induction values with
  | nil => rfl
  | cons v values ih =>
    rw [checkComparison, checkComparison]
    cases hf : f v with
    | error e => rfl
    | ok b =>
      have hmap : (Except.ok b : Except EvaluateError Bool).map (xor negate) =
        .ok (xor negate b) := rfl
      rw [hmap]
      dsimp only
      by_cases hb : b = matchAllValues
      · rw [if_pos hb, if_pos (by rw [hb]), ih]
      · rw [if_neg hb, if_neg (by simpa using hb)]
        rfl

lemma result_comparing (negate matchAllValues : Bool)
    (f : ParameterValue φ δ χ θ → Except EvaluateError Bool) :
    (comparing negate matchAllValues f).result values =
      (checkComparison matchAllValues f values).map (xor negate) :=
  (checkComparison_negate negate matchAllValues f).symm

/-- A comparison does what its reading says. -/
lemma evaluateRange_eq (c : Comparison φ δ χ θ ρ) (values : List (ParameterValue φ δ χ θ)) :
    c.evaluateRange lib values = (c.reading lib).result values := by
  rw [evaluateRange, reading, readingAs]
  cases c.type.evaluation with
  | constant result => rfl
  | defined negate => rfl
  | numeric r negate =>
    dsimp only
    rw [evaluateNumeric]
    cases c.term.termType.numericAlternative with
    | none => rfl
    | some alternative =>
      dsimp only
      split_ifs
      · rfl
      · rw [result_comparing]
  | string negate =>
    dsimp only
    rw [evaluateString]
    split_ifs
    · cases c.comparisonFunc with
      | none => rfl
      | some f => exact (result_comparing negate c.matchAllValues (compareString lib f)).symm
    · rfl
  | regex negate =>
    dsimp only
    rw [evaluateRegex]
    split_ifs
    · rw [result_comparing]
    · rfl
  | dateTime part r negate =>
    dsimp only
    rw [evaluateDateTime]
    split_ifs
    · rfl
    · rfl
    · rw [result_comparing]

/-- A comparison of values compares them, or fails. -/
lemma reading_of_values (lib : ComparisonLibrary φ δ χ θ ρ) (c : Comparison φ δ χ θ ρ)
    (hconstant : ∀ result, c.type.evaluation ≠ .constant result)
    (hdefined : ∀ negate, c.type.evaluation ≠ .defined negate) :
    (∃ error, c.reading lib = .fails error) ∨
      ∃ forNone compare, c.reading lib = .compares forNone compare := by
  rw [reading, readingAs]
  cases htype : c.type.evaluation with
  | constant result => exact absurd htype (hconstant result)
  | defined negate => exact absurd htype (hdefined negate)
  | numeric r negate =>
    cases c.term.termType.numericAlternative with
    | none => exact Or.inl ⟨_, rfl⟩
    | some alternative =>
      dsimp only
      split_ifs
      · exact Or.inl ⟨_, rfl⟩
      · exact Or.inr ⟨_, _, rfl⟩
  | string negate =>
    dsimp only
    split_ifs
    · cases c.comparisonFunc with
      | none => exact Or.inl ⟨_, rfl⟩
      | some f => exact Or.inr ⟨_, _, rfl⟩
    · exact Or.inl ⟨_, rfl⟩
  | regex negate =>
    dsimp only
    split_ifs
    · exact Or.inr ⟨_, _, rfl⟩
    · exact Or.inl ⟨_, rfl⟩
  | dateTime part r negate =>
    dsimp only
    split_ifs
    · exact Or.inl ⟨_, rfl⟩
    · exact Or.inl ⟨_, rfl⟩
    · exact Or.inr ⟨_, _, rfl⟩

lemma reading_eq_constant_iff {result : Bool} :
    c.reading lib = .constant result ↔ c.type.evaluation = .constant result := by
  cases hev : c.type.evaluation with
  | constant result' =>
    rw [reading, readingAs, hev, Reading.constant.injEq, Evaluation.constant.injEq]
  | defined negate => rw [reading, readingAs, hev]; simp
  | _ =>
    obtain ⟨error, h⟩ | ⟨forNone, compare, h⟩ :=
      reading_of_values lib c (by simp [hev]) (by simp [hev])
    all_goals
      rw [h]
      simp

lemma reading_eq_defined_iff {negate : Bool} :
    c.reading lib = .defined negate ↔ c.type.evaluation = .defined negate := by
  cases hev : c.type.evaluation with
  | constant result => rw [reading, readingAs, hev]; simp
  | defined negate' => rw [reading, readingAs, hev, Reading.defined.injEq, Evaluation.defined.injEq]
  | _ =>
    obtain ⟨error, h⟩ | ⟨forNone, compare, h⟩ :=
      reading_of_values lib c (by simp [hev]) (by simp [hev])
    all_goals
      rw [h]
      simp

lemma evaluate_eq (c : Comparison φ δ χ θ ρ) (eventType : ℕ) (e : Event φ δ χ θ) :
    c.evaluate lib eventType e = (c.reading lib).evaluate c.term.termRef eventType e := by
  rw [evaluate, evaluateRange_eq]
  cases htype : c.type
  case isDefined | isNotDefined =>
    have hreading : ∃ negate, c.reading lib = .defined negate ∧
        negate = decide (c.type = .isNotDefined) := by
      refine ⟨_, ?_, rfl⟩
      rw [reading, readingAs, htype]
      rfl
    obtain ⟨negate, hreading, hnegate⟩ := hreading
    rw [hreading, Reading.evaluate]
    rw [htype] at hnegate
    subst hnegate
    by_cases href : eventType = c.term.termRef
    · rw [if_pos href, if_pos ⟨by simp, href⟩]
      rfl
    · rw [if_neg href, if_neg fun h => href h.2]
  all_goals
    have hother : ∀ negate, c.reading lib ≠ .defined negate := by
      intro negate h
      rw [reading_eq_defined_iff, htype] at h
      cases h
    rw [if_neg (by simp)]
    cases hreading : c.reading lib with
    | defined negate => exact absurd hreading (hother negate)
    | _ => rfl

/-- A comparison of values throws for some value. -/
def Reading.Partial : Reading φ δ χ θ → Prop
  | .compares _ compare => ∃ v, compare v = .error .badGet
  | _ => True

lemma partial_comparing (negate matchAllValues : Bool)
    {f : ParameterValue φ δ χ θ → Except EvaluateError Bool} (v : ParameterValue φ δ χ θ)
    (hv : f v = .error .badGet) : (comparing negate matchAllValues f).Partial :=
  ⟨v, by dsimp only; rw [hv]; rfl⟩

/-- Strings are compared with strings only. -/
lemma partial_readingAs {c : Comparison φ δ χ θ ρ} {type : ComparisonType} {m : Bool}
    {number : Relation → Bool → Reading φ δ χ θ}
    {time : DateTimePart → Relation → Bool → Reading φ δ χ θ}
    (hnumber : ∀ r negate, (number r negate).Partial)
    (htime : ∀ part r negate, (time part r negate).Partial) :
    (c.readingAs lib type m number time).Partial := by
  rw [readingAs]
  cases type.evaluation with
  | constant result => trivial
  | defined negate => trivial
  | numeric r negate => exact hnumber r negate
  | string negate =>
    dsimp only
    split_ifs
    · cases c.comparisonFunc with
      | none => trivial
      | some f => exact partial_comparing negate m (.int32 0) rfl
    · trivial
  | regex negate =>
    dsimp only
    split_ifs
    · exact partial_comparing negate m (.int32 0) rfl
    · trivial
  | dateTime part r negate => exact htime part r negate

/-- And numbers and times with their like. -/
lemma partial_reading (c : Comparison φ δ χ θ ρ) : (c.reading lib).Partial := by
  refine partial_readingAs (fun r negate => ?_) fun part r negate => ?_
  · cases c.term.termType.numericAlternative with
    | none => trivial
    | some alternative =>
      dsimp only
      split_ifs
      · trivial
      · exact partial_comparing negate c.matchAllValues (.blob []) (by cases c.value <;> rfl)
  · split_ifs
    · trivial
    · trivial
    · exact partial_comparing negate c.matchAllValues (.blob []) (by cases c.value <;> rfl)

lemma partial_mixture (c : Comparison φ δ χ θ ρ) (type : ComparisonType) (m : Bool) :
    (c.mixture lib type m).Partial :=
  partial_readingAs (fun _ _ => trivial) fun _ _ _ => trivial

lemma result_nil (r : Reading φ δ χ θ) : r.result [] =
    match r with
    | .fails error => .error error
    | .constant result => .ok result
    | .defined negate => .ok negate
    | .compares forNone _ => .ok forNone := by
  cases r with
  | defined negate => cases negate <;> rfl
  | _ => rfl

lemma result_one (r : Reading φ δ χ θ) (v : ParameterValue φ δ χ θ) : r.result [v] =
    match r with
    | .fails error => .error error
    | .constant result => .ok result
    | .defined negate => .ok (! negate)
    | .compares _ compare => compare v := by
  cases r with
  | defined negate => cases negate <;> rfl
  | compares forNone compare =>
    rw [Reading.result, checkComparison]
    dsimp only
    cases compare v with
    | error e => rfl
    | ok b =>
      dsimp only
      split_ifs with hb
      · rw [checkComparison, hb]
      · rfl
  | _ => rfl

/-- A comparison fails on some value. -/
lemma exists_error {forNone : Bool} {f : ParameterValue φ δ χ θ → Except EvaluateError Bool}
    (h : (Reading.compares forNone f).Partial) :
    ∃ v, (Reading.compares forNone f).result [v] = .error .badGet := by
  obtain ⟨v, hv⟩ := h
  exact ⟨v, (result_one _ v).trans hv⟩

/-- Readings are told apart by what they say of no value, and of one value. -/
lemma reading_ext {r r' : Reading φ δ χ θ} (h : r.Partial) (h' : r'.Partial)
    (hnil : r.result [] = r'.result []) (hone : ∀ v, r.result [v] = r'.result [v]) : r = r' := by
  simp only [result_nil] at hnil
  cases r with
  | fails error =>
    cases r' with
    | fails error' => rw [Except.error.inj hnil]
    | _ => cases hnil
  | constant result =>
    cases r' with
    | fails error' => cases hnil
    | constant result' => rw [Except.ok.inj hnil]
    | defined negate =>
      -- a constant says the same of no value as of one
      have heq := Except.ok.inj hnil
      have hne := Except.ok.inj ((hone (.int32 0)).trans (result_one _ _))
      rw [heq] at hne
      exact absurd hne.symm (Bool.not_ne_self negate)
    | compares forNone compare =>
      obtain ⟨v, hv⟩ := exists_error h'
      cases (hone v).trans hv
  | defined negate =>
    cases r' with
    | fails error' => cases hnil
    | constant result' =>
      have heq := Except.ok.inj hnil
      have hne := Except.ok.inj ((result_one _ _).symm.trans (hone (.int32 0)))
      rw [← heq] at hne
      exact absurd hne (Bool.not_ne_self negate)
    | defined negate' => rw [Except.ok.inj hnil]
    | compares forNone compare =>
      obtain ⟨v, hv⟩ := exists_error h'
      cases (hone v).trans hv
  | compares forNone compare =>
    cases r' with
    | fails error' => cases hnil
    | compares forNone' compare' =>
      have hcompare : compare = compare' := funext fun v =>
        (result_one (.compares forNone compare) v).symm.trans
          ((hone v).trans (result_one (.compares forNone' compare') v))
      rw [Except.ok.inj hnil, hcompare]
    | _ =>
      obtain ⟨v, hv⟩ := exists_error h
      cases (hone v).symm.trans hv

/-! ### Assignments that make no difference -/

/-- Strings, numbers and times are terms of different types. -/
lemma numericAlternative_of_isString {type : DataType} (h : type.isString = true) :
    type.numericAlternative = none := by
  cases type <;> first | rfl | cases h

lemma allows_of_isString {type : DataType} (part : DateTimePart) (h : type.isString = true) :
    part.allows type = false := by
  cases part <;> cases type <;> first | rfl | cases h

lemma numericAlternative_of_allows {part : DateTimePart} {type : DataType}
    (h : part.allows type = true) : type.numericAlternative = none := by
  cases part <;> cases type <;> first | rfl | cases h

lemma comparing_inj {n n' m m' : Bool}
    {f f' : ParameterValue φ δ χ θ → Except EvaluateError Bool} :
    comparing n m f = comparing n' m' f' ↔
      xor n m = xor n' m' ∧ ∀ v, (f v).map (xor n) = (f' v).map (xor n') := by
  rw [comparing, comparing, Reading.compares.injEq, funext_iff]

/-- Strings are compared alike by one pattern if the result is turned around alike. -/
lemma compareString_iff {n n' : Bool} (f : ComparisonFunctor) :
    (∀ v : ParameterValue φ δ χ θ,
      (compareString lib f v).map (xor n) = (compareString lib f v).map (xor n')) ↔ n = n' := by
  refine ⟨fun h => ?_, fun h v => by rw [h]⟩
  have hone : xor n (f.apply lib.collate []) = xor n' (f.apply lib.collate []) :=
    Except.ok.inj (h (.blob []))
  simpa using hone

/-- And by one expression, unless it cannot be searched in any text. -/
lemma compareRegex_iff {n n' : Bool} (regex : ρ) :
    (∀ v : ParameterValue φ δ χ θ,
      (compareRegex lib regex v).map (xor n) = (compareRegex lib regex v).map (xor n')) ↔
      n = n' ∨ ∀ text, lib.searchRegex regex (cString text) = none := by
  constructor
  · intro h
    rw [or_iff_not_imp_right, not_forall]
    rintro ⟨text, hsome⟩
    obtain ⟨b, hb⟩ := Option.ne_none_iff_exists'.1 hsome
    have hblob := h (.blob text)
    rw [compareRegex, hb] at hblob
    have hone : xor n b = xor n' b := Except.ok.inj hblob
    simpa using hone
  · rintro (rfl | hnone) v
    · rfl
    · cases v with
      | blob text => rw [compareRegex, hnone text]; rfl
      | _ => rfl

/-- A pattern and an expression have the same result, turned around or not. -/
lemma compareString_compareRegex_iff {n n' : Bool} (f : ComparisonFunctor) (regex : ρ) :
    (∀ v : ParameterValue φ δ χ θ,
      (compareString lib f v).map (xor n) = (compareRegex lib regex v).map (xor n')) ↔
      ∀ text, lib.searchRegex regex (cString text) =
        some (xor (xor n n') (f.apply lib.collate text)) := by
  have hblob : ∀ text, (compareString lib f (.blob text : ParameterValue φ δ χ θ)).map (xor n) =
      (compareRegex lib regex (.blob text : ParameterValue φ δ χ θ)).map (xor n') ↔
      lib.searchRegex regex (cString text) =
        some (xor (xor n n') (f.apply lib.collate text)) := by
    intro text
    rw [compareString, compareRegex]
    cases lib.searchRegex regex (cString text) with
    | none => exact iff_of_false (fun h => by cases h) fun h => by cases h
    | some b =>
      simp only [Except.map, Except.ok.injEq, Option.some.injEq]
      cases n <;> cases n' <;> cases b <;> simp
  refine ⟨fun h text => (hblob text).1 (h _), fun h v => ?_⟩
  cases v with
  | blob text => exact (hblob text).2 (h text)
  | _ => rfl

/-- The comparisons with numbers or times that have no value to compare with. -/
lemma reading_eq_badGet_iff : c.reading lib = .fails .badGet ↔
    match c.type.evaluation with
    | .numeric _ _ => ∃ a, c.term.termType.numericAlternative = some a ∧ c.value.alternative ≠ a
    | .dateTime part _ _ => part.allows c.term.termType = true ∧ c.value.alternative ≠ .dateTime
    | _ => False := by
  rw [reading, readingAs]
  cases c.type.evaluation with
  | constant result => simp
  | defined negate => simp
  | numeric r negate =>
    cases c.term.termType.numericAlternative with
    | none => simp
    | some alternative =>
      dsimp only
      split_ifs with hvalue
      · simpa using hvalue
      · simpa [comparing] using hvalue
  | string negate =>
    dsimp only
    split_ifs
    · cases c.comparisonFunc <;> simp [comparing]
    · simp
  | regex negate =>
    dsimp only
    split_ifs <;> simp [comparing]
  | dateTime part r negate =>
    dsimp only
    split_ifs with hallows hvalue
    · simp [hallows]
    · simp [hallows, hvalue]
    · simpa [comparing] using fun _ => not_ne_iff.1 hvalue

/-- The mixture reads as the old comparison if and only if the assignments make no difference. -/
lemma mixture_eq_iff {type : ComparisonType} {m : Bool}
    (hvalid : type.checkForValidType c.term.termType = true) :
    c.mixture lib type m = c.reading lib ↔ c.Unchanged lib type m := by
  rw [ComparisonType.checkForValidType_eq] at hvalid
  rw [mixture, readingAs, Unchanged]
  generalize type.evaluation = evaluation at hvalid ⊢
  cases evaluation with
  | constant result =>
    refine eq_comm.trans (reading_eq_constant_iff.trans ?_)
    cases c.type.evaluation <;> simp [eq_comm]
  | defined negate =>
    refine eq_comm.trans (reading_eq_defined_iff.trans ?_)
    cases c.type.evaluation <;> simp [eq_comm]
  | numeric r negate =>
    obtain ⟨a, ha⟩ : ∃ a, c.term.termType.numericAlternative = some a :=
      Option.isSome_iff_exists.1 hvalid
    refine eq_comm.trans (reading_eq_badGet_iff.trans ?_)
    cases c.type.evaluation with
    | numeric r' negate' =>
      dsimp only
      rw [ha]
      simpa using ne_comm
    | dateTime part r' negate' =>
      -- numbers are no times
      refine iff_of_false (fun h => ?_) id
      rw [numericAlternative_of_allows h.1] at ha
      cases ha
    | _ => exact Iff.rfl
  | dateTime part r negate =>
    have hnone : c.term.termType.numericAlternative = none := numericAlternative_of_allows hvalid
    refine eq_comm.trans (reading_eq_badGet_iff.trans ?_)
    cases c.type.evaluation with
    | numeric r' negate' =>
      refine iff_of_false ?_ id
      rintro ⟨a, ha, -⟩
      exact absurd (hnone.symm.trans ha) (by simp)
    | _ => exact Iff.rfl
  | string negate =>
    have hstring : c.term.termType.isString = true := hvalid
    have hnone := numericAlternative_of_isString hstring
    have hnot := fun part => allows_of_isString part hstring
    rw [reading, readingAs]
    cases c.type.evaluation with
    | string negate' =>
      dsimp only
      rw [if_pos hstring, if_pos hstring]
      cases c.comparisonFunc with
      | none => exact iff_of_true rfl (Or.inl rfl)
      | some f =>
        dsimp only
        rw [comparing_inj, compareString_iff]
        constructor
        · rintro ⟨hsign, rfl⟩
          exact Or.inr ⟨rfl, by simpa using hsign⟩
        · rintro (h | ⟨rfl, rfl⟩)
          · cases h
          · exact ⟨rfl, rfl⟩
    | regex negate' =>
      dsimp only
      rw [if_pos hstring, if_pos hstring]
      cases c.comparisonFunc with
      | none => simp [comparing]
      | some f =>
        dsimp only
        rw [comparing_inj, compareString_compareRegex_iff]
        simp
    | _ => cases c.comparisonFunc <;> simp [comparing, hstring, hnone, hnot]
  | regex negate =>
    have hstring : c.term.termType.isString = true := hvalid
    have hnone := numericAlternative_of_isString hstring
    have hnot := fun part => allows_of_isString part hstring
    rw [reading, readingAs]
    cases c.type.evaluation with
    | string negate' =>
      dsimp only
      rw [if_pos hstring, if_pos hstring]
      cases c.comparisonFunc with
      | none => simp [comparing]
      | some f =>
        dsimp only
        rw [eq_comm, comparing_inj, compareString_compareRegex_iff]
        simp [Bool.xor_comm, eq_comm]
    | regex negate' =>
      dsimp only
      rw [if_pos hstring, if_pos hstring, comparing_inj, compareRegex_iff]
    | _ => simp [comparing, hstring, hnone, hnot]

/-! ### Calls that throw -/

/-- The events without the term, and with one value of it, show the reading. -/
lemma evaluate_eq_iff (hterm : c'.term = c.term) :
    (∀ eventType e, c'.evaluate lib eventType e = c.evaluate lib eventType e) ↔
      c'.reading lib = c.reading lib := by
  simp only [evaluate_eq, hterm]
  refine ⟨fun h => ?_, fun h eventType e => by rw [h]⟩
  have hresult : ∀ (r : Reading φ δ χ θ) (values : List (ParameterValue φ δ χ θ)),
      values.length ≤ 1 → r.evaluate c.term.termRef (c.term.termRef + 1)
        (values.map fun v => (c.term.termRef, v)) = r.result values := by
    intro r values hlen
    have hrange : valuesRange (values.map fun v => (c.term.termRef, v)) c.term.termRef =
        values := by
      match values, hlen with
      | [], _ => rfl
      | [v], _ =>
        have hsorted : SortedMultimap.Sorted [(c.term.termRef, v)] := List.pairwise_singleton _ _
        rw [List.map_singleton, valuesRange, hsorted.range_eq]
        simp
    cases r with
    -- the event is not of the type that the term stands for
    | defined negate => rw [Reading.evaluate, if_neg (Nat.succ_ne_self _), hrange]
    | _ => rw [Reading.evaluate, hrange]; exact fun _ h => by cases h
  refine reading_ext (partial_reading c') (partial_reading c) ?_ fun v => ?_
  · rw [← hresult _ [] (Nat.zero_le _), ← hresult _ [] (Nat.zero_le _), h]
  · rw [← hresult _ [v] le_rfl, ← hresult _ [v] le_rfl, h]

/-- What a call with a value leaves when it throws behind its assignments. -/
lemma reading_configureValue {type : ComparisonType} {value : ParameterValue φ δ χ θ} {m : Bool}
    (hvalid : type.checkForValidType c.term.termType = true)
    (hvalue : c.term.termType.valueAlternative ≠ some value.alternative) :
    ({ c with type := type, value := value, matchAllValues := m } :
      Comparison φ δ χ θ ρ).reading lib = c.mixture lib type m := by
  rw [ComparisonType.checkForValidType_eq] at hvalid
  rw [reading, mixture, readingAs, readingAs]
  cases hev : type.evaluation with
  | constant result => rfl
  | defined negate => rfl
  | string negate => rfl
  | regex negate => rfl
  | numeric r negate =>
    rw [hev, Evaluation.suits] at hvalid
    obtain ⟨a, ha⟩ := Option.isSome_iff_exists.1 hvalid
    rw [valueAlternative_of_numeric hvalid, ha] at hvalue
    dsimp only
    rw [ha]
    dsimp only
    rw [if_pos fun heq => hvalue (by rw [heq])]
  | dateTime part r negate =>
    rw [hev, Evaluation.suits] at hvalid
    rw [valueAlternative_of_allows hvalid] at hvalue
    dsimp only
    rw [hvalid, if_neg Bool.noConfusion, if_pos fun heq => hvalue (by rw [heq])]

/-- A call with a string changes at most the string, when it throws. -/
lemma setValue_error {type : ComparisonType} {value : Bytes} {error : ConfigureError}
    (h : c.setValue lib type value = (c', some error)) :
    c'.term = c.term ∧ c'.reading lib = c.reading lib := by
  rw [setValue] at h
  split_ifs at h
  · cases hmake : lib.makeRegex value with
    | none => rw [hmake] at h; cases h; exact ⟨rfl, rfl⟩
    | some regex => rw [hmake] at h; cases h
  · rcases hf : type.functor (cString value) with _ | _ | f
    · rw [hf] at h; cases h; exact ⟨rfl, rfl⟩
    · rw [hf] at h; cases h
    · rw [hf] at h
      dsimp only at h
      split_ifs at h
      · cases h
      · cases h; exact ⟨rfl, rfl⟩
  · cases hconvert : c.convertValue lib value with
    | none => rw [hconvert] at h; cases h; exact ⟨rfl, rfl⟩
    | some d => rw [hconvert] at h; cases h
  · cases h

/-- A call that throws leaves a comparison that evaluates all events as before, if and only if it
has not assigned anything, or what it has assigned makes no difference to the comparison. -/
theorem configure_keeps_iff (c : Comparison φ δ χ θ ρ) (call : Configure φ δ χ θ)
    {c' : Comparison φ δ χ θ ρ} {error : ConfigureError}
    (h : c.configureWith lib call = (c', some error)) :
    (∀ eventType e, c'.evaluate lib eventType e = c.evaluate lib eventType e) ↔
      KeepsReading lib c call := by
  cases call with
  | string type value m =>
    refine iff_of_true ?_ trivial
    rw [configureWith, configure] at h
    split_ifs at h
    · cases h; exact fun _ _ => rfl
    · cases h; exact fun _ _ => rfl
    · rcases hset : c.setValue lib type value with ⟨d, _ | error⟩
      · rw [hset] at h
        cases h
      · rw [hset] at h
        cases h
        obtain ⟨hterm, hreading⟩ := setValue_error hset
        exact (evaluate_eq_iff hterm).2 hreading
  | type type =>
    refine iff_of_true ?_ trivial
    rw [configureWith, configureType] at h
    split_ifs at h
    · cases h; exact fun _ _ => rfl
    · cases h; exact fun _ _ => rfl
    · cases h
  | value type value m =>
    rw [configureWith, configureValue] at h
    rw [KeepsReading]
    split_ifs at h with hinvalid hvalue
    · cases h
      exact iff_of_true (fun _ _ => rfl) fun hvalid => absurd (hinvalid.symm.trans hvalid)
        Bool.false_ne_true
    · cases h
    · -- the exception comes behind the assignments
      cases h
      have hvalid : type.checkForValidType c.term.termType = true := by simpa using hinvalid
      have hiff := @evaluate_eq_iff _ _ _ _ _ lib c
        { c with type := type, value := value, matchAllValues := m } rfl
      rw [reading_configureValue hvalid hvalue] at hiff
      exact hiff.trans ((mixture_eq_iff hvalid).trans ⟨fun h _ => h, fun h => h hvalid⟩)

/-- A comparison of words with the type `false`: a call with this type and a number throws, and all
events are evaluated as before. -/
theorem configure_keeps_iff_type :
    ((new asciiLibrary wordTerm false).configureWith asciiLibrary
        (.value .false (.int32 7) true)).2 = some .invalidValueForType ∧
      ∀ eventType e, ((new asciiLibrary wordTerm false).configureWith asciiLibrary
          (.value .false (.int32 7) true)).1.evaluate asciiLibrary eventType e =
        (new asciiLibrary wordTerm false).evaluate asciiLibrary eventType e :=
  ⟨rfl, (@configure_keeps_iff _ _ _ _ _ asciiLibrary (new asciiLibrary wordTerm false)
    (.value .false (.int32 7) true) _ _ rfl).2 fun _ => rfl⟩

/-- With the type `true`, every event passes behind the failed call. -/
theorem not_configure_keeps :
    ¬ ∀ (c c' : Comparison Unit Unit Unit Unit Bytes) (call : Configure Unit Unit Unit Unit)
      (error : ConfigureError), c.configureWith asciiLibrary call = (c', some error) →
        ∀ eventType e, c'.evaluate asciiLibrary eventType e =
          c.evaluate asciiLibrary eventType e := by
  intro hall
  have h := hall (new asciiLibrary wordTerm false) _ (.value .true (.int32 7) true) _ rfl 0 []
  exact absurd (Except.ok.inj h) (by decide)

end Comparison

end PionCore.Platform
