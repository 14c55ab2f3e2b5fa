/-
# The values that must match

A comparison is to match all values of a term, or one of them.  `checkComparison` looks for the
values that match, and `evaluateRange` turns its result around for the comparisons that are
negated, so that these ask for one value that matches where all values are meant, and the other way
round (`matchAllValues_iff`).
-/
import PionCore.Platform.Comparison

namespace PionCore.Platform

open PionCore.Lib
open LogCodec (cString)

/-- Is the result of `checkComparison` turned around? -/
def ComparisonType.negates (t : ComparisonType) : Bool :=
  match t.evaluation with
  | .constant _ => .false
  | .defined negate | .numeric _ negate | .string negate | .regex negate
  | .dateTime _ _ negate => negate

namespace Comparison

variable {φ δ χ θ ρ : Type*} (lib : ComparisonLibrary φ δ χ θ ρ)

/-- What is compared with the values, before the result is turned around. -/
def compareOne (c : Comparison φ δ χ θ ρ) (v : ParameterValue φ δ χ θ) :
    Except EvaluateError Bool :=
  match c.type.evaluation with
  | .constant result => .ok result
  | .defined _ => .ok true
  | .numeric r _ => compareNumbers lib r v c.value
  | .string _ =>
      match c.comparisonFunc, v with
      | some f, .blob text => .ok (f.apply lib.collate text)
      | _, _ => .error .badGet
  | .regex _ => compareRegex lib c.regex v
  | .dateTime part r _ => compareDateTime lib part r v c.value

/-- One value alone satisfies the comparison. -/
def Satisfies (c : Comparison φ δ χ θ ρ) (v : ParameterValue φ δ χ θ) : Prop :=
  c.evaluateRange lib [v] = .ok true

/-- What `matchAllValues` is to mean: all values satisfy the comparison, or one of them does. -/
def MeansWhatItSays (c : Comparison φ δ χ θ ρ) (values : List (ParameterValue φ δ χ θ)) : Prop :=
  c.evaluateRange lib values = .ok true ↔
    if c.matchAllValues = true then ∀ v ∈ values, c.Satisfies lib v
    else ∃ v ∈ values, c.Satisfies lib v

/-- The values in front of the first one whose comparison throws. -/
def comparable (f : ParameterValue φ δ χ θ → Except EvaluateError Bool)
    (values : List (ParameterValue φ δ χ θ)) : List (ParameterValue φ δ χ θ) :=
  values.takeWhile fun v => (f v).toOption.isSome

/-- The values do not bring out that a negated comparison turns the result around, or that a
comparison throws: with a negated one, all values match or none does, and otherwise a value that
matches is not behind one that throws. -/
def Agreeing (c : Comparison φ δ χ θ ρ) (values : List (ParameterValue φ δ χ θ)) : Prop :=
  let matching (v : ParameterValue φ δ χ θ) : Prop :=
    c.compareOne lib v = .ok (! c.type.negates)
  match c.type.negates, c.matchAllValues with
  | false, true => True
  | false, false =>
      (∃ v ∈ values, matching v) → ∃ v ∈ comparable (c.compareOne lib) values, matching v
  | true, true =>
      (∃ v ∈ comparable (c.compareOne lib) values, matching v) → ∀ v ∈ values, matching v
  | true, false => (∃ v ∈ values, matching v) → ∀ v ∈ values, matching v

/-! ### The loop over the values -/

variable {lib} {c c' : Comparison φ δ χ θ ρ} {m : Bool} {values : List (ParameterValue φ δ χ θ)}
variable {f : ParameterValue φ δ χ θ → Except EvaluateError Bool}

/-- The loop ends with its default just when all values have it. -/
lemma checkComparison_eq_ok : checkComparison m f values = .ok m ↔ ∀ v ∈ values, f v = .ok m := by
  induction values with
  | nil => simp [checkComparison]
  | cons v values ih =>
    rw [checkComparison, List.forall_mem_cons]
    cases hf : f v with
    | error e => simp
    | ok b =>
      dsimp only
      split_ifs with hb
      · rw [ih, hb]
        simp
      · simp [hb]

/-- The loop ends with another result just when it finds a value with it before it throws. -/
lemma checkComparison_eq_ok_not : checkComparison m f values = .ok (! m) ↔
    ∃ v ∈ comparable f values, f v = .ok (! m) := by
  induction values with
  | nil => simp [checkComparison, comparable]
  | cons v values ih =>
    rw [checkComparison, comparable, List.takeWhile_cons]
    cases hf : f v with
    | error e => simp [Except.toOption]
    | ok b =>
      have hsome : (Except.ok b : Except EvaluateError Bool).toOption.isSome = true := rfl
      rw [if_pos hsome, List.exists_mem_cons_iff, hf]
      dsimp only
      split_ifs with hb
      · subst hb
        rw [ih, comparable]
        simp
      · obtain rfl := Bool.eq_not_iff.2 hb
        simp

/-- For a result that is the same for all values, the loop has this result. -/
lemma checkComparison_const (b : Bool) (hne : values ≠ []) :
    checkComparison m (fun _ => .ok b) values = .ok b := by
  by_cases hb : b = m
  · subst hb
    exact checkComparison_eq_ok.2 fun _ _ => rfl
  · cases values with
    | nil => exact absurd rfl hne
    | cons v values => exact if_neg hb

lemma checkComparison_congr {g : ParameterValue φ δ χ θ → Except EvaluateError Bool}
    (h : ∀ v ∈ values, f v = g v) : checkComparison m f values = checkComparison m g values := by
  induction values with
  | nil => rfl
  | cons v values ih =>
    obtain ⟨hv, hvalues⟩ := List.forall_mem_cons.1 h
    rw [checkComparison, checkComparison, hv, ih hvalues]

/-! ### What is evaluated -/

/-- A comparison of values of the type of its term is a loop over them. -/
lemma Fits.evaluateRange_eq (h : c.Fits) (hne : values ≠ [])
    (htyped : ∀ v ∈ values, c.term.termType.eventAlternative = some v.alternative) :
    c.evaluateRange lib values =
      (checkComparison c.matchAllValues (c.compareOne lib) values).map (xor c.type.negates) := by
  rw [Comparison.evaluateRange, ComparisonType.negates]
  rw [Fits] at h
  have hone : c.compareOne lib = fun v => c.compareOne lib v := rfl
  cases hev : c.type.evaluation with
  | constant result =>
    rw [hone]
    simp only [compareOne, hev]
    rw [checkComparison_const result hne]
    simp [Except.map]
  | defined negate =>
    rw [hone]
    simp only [compareOne, hev]
    rw [checkComparison_const true hne]
    have hnil : values.isEmpty = false := by simpa using hne
    cases negate <;> simp [Except.map, hnil]
  | numeric r negate =>
    rw [hev] at h
    rw [hone]
    simp only [compareOne, hev, evaluateNumeric, h]
    simp
  | string negate =>
    rw [hev] at h
    obtain ⟨g, hg⟩ := Option.isSome_iff_exists.1 h.2
    simp only [evaluateString, h.1, hg, if_true]
    congr 1
    refine checkComparison_congr fun v hv => ?_
    obtain ⟨text, rfl⟩ := exists_blob h.1 (htyped v hv)
    simp only [compareOne, hev, hg]
  | regex negate =>
    rw [hev] at h
    rw [hone]
    simp only [compareOne, hev, evaluateRegex]
    rw [if_pos h]
  | dateTime part r negate =>
    rw [hev] at h
    rw [hone]
    simp only [compareOne, hev, evaluateDateTime, h.1, h.2]
    simp

lemma map_xor_eq_ok {x : Except EvaluateError Bool} (negate : Bool) :
    x.map (xor negate) = .ok true ↔ x = .ok (! negate) := by
  cases x with
  | error e => simp [Except.map]
  | ok b => cases b <;> cases negate <;> simp [Except.map]

/-- One value alone satisfies the comparison if it is found to match. -/
lemma Fits.satisfies_iff (h : c.Fits) {v : ParameterValue φ δ χ θ}
    (htyped : c.term.termType.eventAlternative = some v.alternative) :
    c.Satisfies lib v ↔ c.compareOne lib v = .ok (! c.type.negates) := by
  rw [Satisfies, h.evaluateRange_eq (List.cons_ne_nil v []) (by simpa using htyped),
    map_xor_eq_ok]
  cases hone : c.compareOne lib v with
  | error e => simp [checkComparison, hone]
  | ok b => by_cases hb : b = c.matchAllValues <;> simp [checkComparison, hone, hb]

/-- The result is true just when all values match, or one of them, by the kind of the comparison and
not by what it is to match. -/
lemma Fits.evaluateRange_eq_true (h : c.Fits) (hne : values ≠ [])
    (htyped : ∀ v ∈ values, c.term.termType.eventAlternative = some v.alternative) :
    c.evaluateRange lib values = .ok true ↔
      if c.matchAllValues = (! c.type.negates) then
        ∀ v ∈ values, c.compareOne lib v = .ok (! c.type.negates)
      else
        ∃ v ∈ comparable (c.compareOne lib) values,
          c.compareOne lib v = .ok (! c.type.negates) := by
  rw [h.evaluateRange_eq hne htyped, map_xor_eq_ok]
  split_ifs with hm
  · rw [← hm]
    exact checkComparison_eq_ok
  · have hnot : (! c.type.negates) = ! c.matchAllValues := by
      revert hm
      cases c.type.negates <;> cases c.matchAllValues <;> simp
    rw [hnot]
    exact checkComparison_eq_ok_not

/-- In front of the first value that throws there are values only. -/
lemma mem_of_mem_comparable {v : ParameterValue φ δ χ θ} (h : v ∈ comparable f values) :
    v ∈ values :=
  (List.takeWhile_sublist _).mem h

/-- A comparison that is configured matches all values, or one of them, as it is told, just when the
values are agreeing. -/
theorem matchAllValues_iff {call : Configure φ δ χ θ}
    (hconfigure : c.configureWith lib call = (c', none)) (hne : values ≠ [])
    (htyped : ∀ v ∈ values, c'.term.termType.eventAlternative = some v.alternative) :
    MeansWhatItSays lib c' values ↔ Agreeing lib c' values := by
  obtain ⟨hfits, -⟩ := fits_of_configureWith hconfigure
  have hall : (∀ v ∈ values, c'.Satisfies lib v) ↔
      ∀ v ∈ values, c'.compareOne lib v = .ok (! c'.type.negates) :=
    forall₂_congr fun v hv => hfits.satisfies_iff (htyped v hv)
  have hsome : (∃ v ∈ values, c'.Satisfies lib v) ↔
      ∃ v ∈ values, c'.compareOne lib v = .ok (! c'.type.negates) :=
    exists_congr fun v => and_congr_right fun hv => hfits.satisfies_iff (htyped v hv)
  have hfront : (∃ v ∈ comparable (c'.compareOne lib) values,
      c'.compareOne lib v = .ok (! c'.type.negates)) →
      ∃ v ∈ values, c'.compareOne lib v = .ok (! c'.type.negates) :=
    fun ⟨v, hv, hmatch⟩ => ⟨v, mem_of_mem_comparable hv, hmatch⟩
  -- if all values match, none throws
  have hcomparable : (∀ v ∈ values, c'.compareOne lib v = .ok (! c'.type.negates)) →
      ∃ v ∈ comparable (c'.compareOne lib) values,
        c'.compareOne lib v = .ok (! c'.type.negates) := by
    intro hmatch
    obtain ⟨v, rest, rfl⟩ := List.exists_cons_of_ne_nil hne
    have hv := hmatch v List.mem_cons_self
    refine ⟨v, ?_, hv⟩
    rw [comparable, List.takeWhile_cons, hv]
    exact List.mem_cons_self
  have hone : (∀ v ∈ values, c'.compareOne lib v = .ok (! c'.type.negates)) →
      ∃ v ∈ values, c'.compareOne lib v = .ok (! c'.type.negates) :=
    fun hmatch => hfront (hcomparable hmatch)
  rw [MeansWhatItSays, hfits.evaluateRange_eq_true hne htyped, hall, hsome, Agreeing]
  cases hneg : c'.type.negates <;> cases hm : c'.matchAllValues <;>
    rw [hneg] at hfront hcomparable hone
  · -- one value is to match
    simp only [Bool.not_false, Bool.false_eq_true, if_false] at hfront ⊢
    exact ⟨Iff.mpr, fun h => ⟨hfront, h⟩⟩
  · simp
  · -- one value is to match, and the comparison is negated
    simp only [Bool.not_true, Bool.false_eq_true, if_true, if_false] at hone ⊢
    exact ⟨Iff.mpr, fun h => ⟨hone, h⟩⟩
  · -- all values are to match, and the comparison is negated
    simp only [Bool.not_true, Bool.true_eq_false, if_true, if_false] at hcomparable ⊢
    exact ⟨Iff.mp, fun h => ⟨h, hcomparable⟩⟩

/-- All values are equal to five. -/
theorem matchAllValues_iff_equal :
    MeansWhatItSays asciiLibrary equalsFive [.int32 5, .int32 5] ↔
      Agreeing asciiLibrary equalsFive [.int32 5, .int32 5] := by
  have hconfigure : (new asciiLibrary countTerm false).configureWith asciiLibrary
      (.string .equals (ascii "5") false) = (equalsFive, none) := rfl
  refine matchAllValues_iff hconfigure (List.cons_ne_nil _ _) fun v hv => ?_
  simp only [List.mem_cons, List.not_mem_nil, or_false, or_self] at hv
  rw [hv]
  rfl

/-- A comparison of all values with numbers other than five. -/
def notEqualsFive : Comparison Unit Unit Unit Unit Bytes :=
  ((new asciiLibrary countTerm false).configureWith asciiLibrary
    (.string .notEquals (ascii "5") true)).1

/-- All values are to be other than five, and of five and seven one is. -/
theorem not_matchAllValues :
    (new asciiLibrary countTerm false).configureWith asciiLibrary
        (.string .notEquals (ascii "5") true) = (notEqualsFive, none) ∧
      notEqualsFive.evaluateRange asciiLibrary [.int32 5, .int32 7] = .ok true ∧
      notEqualsFive.evaluateRange asciiLibrary [.int32 5] = .ok false ∧
      ¬ MeansWhatItSays asciiLibrary notEqualsFive [.int32 5, .int32 7] := by
  refine ⟨rfl, rfl, rfl, fun hmeans => ?_⟩
  rw [MeansWhatItSays, if_pos (show notEqualsFive.matchAllValues = true from rfl)] at hmeans
  cases hmeans.1 rfl (.int32 5) List.mem_cons_self

end Comparison

end PionCore.Platform
