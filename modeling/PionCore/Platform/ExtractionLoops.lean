/-
# The loops of an extraction rule

A rule with a format stores a text for each match of its expression, and goes on where the match
ends.  An empty match ends where the next search begins, which finds it again: without a limit the
loop has no end there (`extracts_terminate_iff`).

What the library of regular expressions finds in a text is a parameter.
-/
import PionCore.Platform.ProtocolClones
import PionCore.Platform.UTF8Blob

namespace PionCore.Platform

open PionCore.Lib PionCore.Common PionCore.Net EventValidator

/-- The libraries behind the loops of a rule: the regular expressions, and what the blobs of an
event are made with. -/
structure MatchLibrary (μ : Type*) where
  /-- `u32regex_search` or `regex_search`, of an expression in a text; `none` if it throws -/
  search : Bool → Bytes → Bytes → Option (Option μ)
  /-- `mr[0].second`, from the beginning of the text on -/
  stop : μ → ℕ
  stop_le : ∀ utf8 regex text m, search utf8 regex text = some (some m) → stop m ≤ text.length
  /-- `mr.format` -/
  format : μ → Bytes → Bytes
  icu : ICU
  /-- what is found in new memory -/
  memory : ℕ → Bytes
  length_memory : ∀ n, (memory n).length = n

/-- A value that a rule has stored, with the text that it has made it of, and with what it knew of
that text. -/
structure Extract where
  text : Bytes
  utf8 : Tribool
  value : Bytes
deriving DecidableEq

/-- How the work of a rule ends: with an exception of the library of regular expressions, or with
another one (or a read in front of a text), if it is not finished. -/
inductive Ending where
  | finished
  | regexFailure
  | failed
deriving DecidableEq

/-- `U8_SET_CP_START_UNSAFE`: back over trail bytes; `none` in front of the text. -/
def setCpStart (s : Bytes) : ℕ → Option ℕ
  | 0 => if isTrail (s.getD 0 0) then none else some 0
  | i + 1 => if isTrail (s.getD (i + 1) 0) then setCpStart s i else some (i + 1)

namespace MatchLibrary

variable {μ : Type*} (lib : MatchLibrary μ) (r : ExtractionRule)

/-- The value that `setTruncatedString` stores. -/
def setTruncatedString (content : Bytes) (contentIsValidUtf8 : Tribool) : Option Bytes :=
  match contentIsValidUtf8 with
  | .yes =>
    if r.maxSize < content.length then (setCpStart content r.maxSize).map content.take
    else some content
  | _ => makeUTF8Blob lib.icu lib.memory content

/-- A call of it: what comes after it, if it does not throw. -/
def storing (content : Bytes) (utf8 : Tribool) (next : Extract → Option (List Extract × Ending)) :
    Option (List Extract × Ending) :=
  match lib.setTruncatedString r content utf8 with
  | none => some ([], .failed)
  | some value => next { text := content, utf8 := utf8, value := value }

/-- The loop over the matches, from a place in the content on, with a number of turns that it must
not need; `none` if it needs more. -/
def matchLoop (regex content : Bytes) (utf8 : Tribool) :
    ℕ → ℕ → Bytes → Option (List Extract × Ending)
  | 0, _, _ => none
  | turns + 1, numExtracts, rest =>
    match lib.search (utf8 = .yes) regex rest with
    | none => some ([], .regexFailure)
    | some none => some ([], .finished)
    | some (some mr) =>
      if r.format = [] then
        -- no format: the entire string, and no other match
        lib.storing r content utf8 fun e => some ([e], .finished)
      else
        lib.storing r (lib.format mr r.format) .indeterminate fun e =>
          if r.maxExtracts ≠ 0 ∧ r.maxExtracts ≤ numExtracts + 1 then some ([e], .finished)
          else
            (matchLoop regex content utf8 turns (numExtracts + 1) (rest.drop (lib.stop mr))).map
              fun x => (e :: x.1, x.2)

/-- `setTermValueFromFinalContent`, and the body of the loop in `process`. -/
def setTermValueFromFinalContent (turns : ℕ) (content : Bytes) (utf8 : Tribool) :
    Option (List Extract × Ending) :=
  match r.matchRegex with
  | none => lib.storing r content utf8 fun e => some ([e], .finished)
  | some regex => lib.matchLoop r regex content utf8 turns 0 content

/-- The text of a value of a dictionary. -/
def contentRef (urlDecoded : Bool) (value : Bytes) : Bytes :=
  if urlDecoded then urlDecode value else value

/-- `process`, with what is stored for each value. -/
def process (turns : ℕ) (urlDecoded : Bool) : List Bytes → Option (List (List Extract) × Ending)
  | [] => some ([], .finished)
  | value :: values =>
    if r.maxSize > 0 ∧ contentRef urlDecoded value ≠ [] then
      (lib.setTermValueFromFinalContent r turns (contentRef urlDecoded value) .indeterminate).bind
        fun x =>
          if x.2 = .finished then
            (process turns urlDecoded values).map fun y => (x.1 :: y.1, y.2)
          else some ([x.1], x.2)
    else (process turns urlDecoded values).map fun y => ([] :: y.1, y.2)

/-- No more values than the rule allows. -/
def Limited (xs : List Extract) : Prop := r.maxExtracts ≠ 0 → xs.length ≤ r.maxExtracts

/-- From the end of match to match, and each time the text that is formatted can be stored, a
search comes to an empty match in the place where it begins. -/
inductive Stalls (regex : Bytes) (utf8 : Tribool) : Bytes → Prop
  | here {rest : Bytes} {mr : μ} (hsearch : lib.search (utf8 = .yes) regex rest = some (some mr))
      (hstore : makeUTF8Blob lib.icu lib.memory (lib.format mr r.format) ≠ none)
      (hempty : lib.stop mr = 0) : Stalls regex utf8 rest
  | later {rest : Bytes} {mr : μ} (hsearch : lib.search (utf8 = .yes) regex rest = some (some mr))
      (hstore : makeUTF8Blob lib.icu lib.memory (lib.format mr r.format) ≠ none)
      (hrest : Stalls regex utf8 (rest.drop (lib.stop mr))) : Stalls regex utf8 rest

/-- A content on which a rule without a limit for its formatted texts comes to an empty match. -/
def Endless (content : Bytes) (utf8 : Tribool) : Prop :=
  r.maxExtracts = 0 ∧ r.format ≠ [] ∧
    ∃ regex, r.matchRegex = some regex ∧ lib.Stalls r regex utf8 content

/-- From the end of match to match, and each time the text that is formatted can be stored, a
search comes to no match. -/
inductive Exhausts (regex : Bytes) (utf8 : Tribool) : Bytes → Prop
  | here {rest : Bytes} (hsearch : lib.search (utf8 = .yes) regex rest = some none) :
      Exhausts regex utf8 rest
  | later {rest : Bytes} {mr : μ} (hsearch : lib.search (utf8 = .yes) regex rest = some (some mr))
      (hstore : makeUTF8Blob lib.icu lib.memory (lib.format mr r.format) ≠ none)
      (hrest : Exhausts regex utf8 (rest.drop (lib.stop mr))) : Exhausts regex utf8 rest

/-- A rule without a limit for its formatted texts comes to a value of the dictionary: the matches
in all texts before it come to an end. -/
def Reaches (urlDecoded : Bool) (values : List Bytes) (value : Bytes) : Prop :=
  r.maxSize > 0 ∧ contentRef urlDecoded value ≠ [] ∧
    ∃ before after, values = before ++ value :: after ∧
      ∀ v ∈ before, contentRef urlDecoded v ≠ [] → ∀ regex, r.matchRegex = some regex →
        lib.Exhausts r regex .indeterminate (contentRef urlDecoded v)

variable {lib r} {regex content rest : Bytes} {utf8 : Tribool} {turns n : ℕ}

lemma setTruncatedString_indeterminate :
    lib.setTruncatedString r content .indeterminate =
      makeUTF8Blob lib.icu lib.memory content := rfl

/-- What is known of a stored value: it is what the call stores, of a text that may not be UTF-8 or
of the content. -/
def Stored (lib : MatchLibrary μ) (r : ExtractionRule) (content : Bytes) (utf8 : Tribool)
    (e : Extract) : Prop :=
  lib.setTruncatedString r e.text e.utf8 = some e.value ∧
    (e.utf8 = .indeterminate ∨ e.utf8 = utf8 ∧ e.text = content)

/-- The call that stores the content is the last one. -/
lemma storing_content (lib : MatchLibrary μ) (r : ExtractionRule) (content : Bytes)
    (utf8 : Tribool) : ∃ x : List Extract × Ending,
      (lib.storing r content utf8 fun e => some ([e], .finished)) = some x ∧ x.1.length ≤ 1 ∧
        ∀ e ∈ x.1, lib.Stored r content utf8 e := by
  rw [storing]
  cases hstore : lib.setTruncatedString r content utf8 with
  | none => exact ⟨_, rfl, Nat.zero_le 1, fun _ hmem => absurd hmem List.not_mem_nil⟩
  | some value =>
    exact ⟨_, rfl, le_rfl, List.forall_mem_singleton.2 ⟨hstore, Or.inr ⟨rfl, rfl⟩⟩⟩

/-- A turn that stores a formatted text and goes on behind the match. -/
lemma matchLoop_next {mr : μ} {value : Bytes}
    (hsearch : lib.search (utf8 = .yes) regex rest = some (some mr)) (hformat : r.format ≠ [])
    (hvalue : makeUTF8Blob lib.icu lib.memory (lib.format mr r.format) = some value)
    (hlimit : ¬ (r.maxExtracts ≠ 0 ∧ r.maxExtracts ≤ n + 1)) (turns : ℕ) :
    lib.matchLoop r regex content utf8 (turns + 1) n rest =
      (lib.matchLoop r regex content utf8 turns (n + 1) (rest.drop (lib.stop mr))).map
        fun x => (⟨lib.format mr r.format, .indeterminate, value⟩ :: x.1, x.2) := by
  rw [matchLoop, hsearch]
  dsimp only
  rw [if_neg hformat, storing, setTruncatedString_indeterminate, hvalue]
  dsimp only
  rw [if_neg hlimit]

/-- Every turn goes on so, or ends the loop with one value at most. -/
lemma matchLoop_cases (lib : MatchLibrary μ) (r : ExtractionRule) (regex content : Bytes)
    (utf8 : Tribool) (n : ℕ) (rest : Bytes) :
    (∃ x : List Extract × Ending,
      (∀ turns, lib.matchLoop r regex content utf8 (turns + 1) n rest = some x) ∧
        x.1.length ≤ 1 ∧ ∀ e ∈ x.1, lib.Stored r content utf8 e) ∨
    ∃ mr value, lib.search (utf8 = .yes) regex rest = some (some mr) ∧ r.format ≠ [] ∧
      makeUTF8Blob lib.icu lib.memory (lib.format mr r.format) = some value ∧
        ¬ (r.maxExtracts ≠ 0 ∧ r.maxExtracts ≤ n + 1) := by
  have hnil : ∀ e ∈ ([] : List Extract), lib.Stored r content utf8 e :=
    fun _ hmem => absurd hmem List.not_mem_nil
  rcases hsearch : lib.search (utf8 = .yes) regex rest with _ | _ | mr
  · exact Or.inl ⟨([], .regexFailure), fun turns => by rw [matchLoop, hsearch], Nat.zero_le 1,
      hnil⟩
  · exact Or.inl ⟨([], .finished), fun turns => by rw [matchLoop, hsearch], Nat.zero_le 1, hnil⟩
  · by_cases hformat : r.format = []
    · obtain ⟨x, hx, hlen, hstored⟩ := storing_content lib r content utf8
      refine Or.inl ⟨x, fun turns => ?_, hlen, hstored⟩
      rw [matchLoop, hsearch]
      dsimp only
      rw [if_pos hformat, hx]
    · cases hvalue : makeUTF8Blob lib.icu lib.memory (lib.format mr r.format) with
      | none =>
        refine Or.inl ⟨([], .failed), fun turns => ?_, Nat.zero_le 1, hnil⟩
        rw [matchLoop, hsearch]
        dsimp only
        rw [if_neg hformat, storing, setTruncatedString_indeterminate, hvalue]
      | some value =>
        by_cases hlimit : r.maxExtracts ≠ 0 ∧ r.maxExtracts ≤ n + 1
        · refine Or.inl ⟨([⟨lib.format mr r.format, .indeterminate, value⟩], .finished),
            fun turns => ?_, le_rfl, List.forall_mem_singleton.2 ⟨hvalue, Or.inl rfl⟩⟩
          rw [matchLoop, hsearch]
          dsimp only
          rw [if_neg hformat, storing, setTruncatedString_indeterminate, hvalue]
          dsimp only
          rw [if_pos hlimit]
        · exact Or.inr ⟨mr, value, rfl, hformat, hvalue, hlimit⟩

/-- A loop that stalls needs more turns than any number of them. -/
lemma Stalls.matchLoop_eq_none (h : lib.Stalls r regex utf8 rest) (hmax : r.maxExtracts = 0)
    (hformat : r.format ≠ []) (n : ℕ) : lib.matchLoop r regex content utf8 turns n rest = none := by
  induction turns generalizing rest n with
  | zero => rfl
  | succ turns ih =>
    have hlimit : ¬ (r.maxExtracts ≠ 0 ∧ r.maxExtracts ≤ n + 1) := fun hlimit => hlimit.1 hmax
    cases h with
    | here hsearch hstore hempty =>
      obtain ⟨value, hvalue⟩ := Option.ne_none_iff_exists'.1 hstore
      -- the rest is the same again
      have hagain := ih (.here hsearch hstore hempty) (n + 1)
      rw [matchLoop_next hsearch hformat hvalue hlimit, hempty, List.drop_zero, hagain,
        Option.map_none]
    | later hsearch hstore hrest =>
      obtain ⟨value, hvalue⟩ := Option.ne_none_iff_exists'.1 hstore
      rw [matchLoop_next hsearch hformat hvalue hlimit, ih hrest, Option.map_none]

/-- Otherwise each turn but the last leaves a shorter rest. -/
lemma matchLoop_isSome (h : ¬ lib.Stalls r regex utf8 rest) (hturns : rest.length < turns)
    (n : ℕ) : (lib.matchLoop r regex content utf8 turns n rest).isSome = true := by
  induction turns generalizing rest n with
  | zero => exact absurd hturns (Nat.not_lt_zero _)
  | succ turns ih =>
    obtain ⟨x, hx, -⟩ | ⟨mr, value, hsearch, hformat, hvalue, hlimit⟩ :=
      matchLoop_cases lib r regex content utf8 n rest
    · rw [hx]
      rfl
    · have hstore : makeUTF8Blob lib.icu lib.memory (lib.format mr r.format) ≠ none := by
        rw [hvalue]
        exact Option.some_ne_none value
      have hpos : lib.stop mr ≠ 0 := fun hempty => h (.here hsearch hstore hempty)
      have hle := lib.stop_le _ _ _ _ hsearch
      rw [matchLoop_next hsearch hformat hvalue hlimit, Option.isSome_map]
      refine ih (fun hrest => h (.later hsearch hstore hrest)) ?_ (n + 1)
      rw [List.length_drop]
      omega

/-- A limit is a number of turns that is enough. -/
lemma matchLoop_isSome_of_limit (hmax : n < r.maxExtracts) (hturns : r.maxExtracts ≤ n + turns) :
    (lib.matchLoop r regex content utf8 turns n rest).isSome = true := by
  induction turns generalizing rest n with
  | zero => omega
  | succ turns ih =>
    obtain ⟨x, hx, -⟩ | ⟨mr, value, hsearch, hformat, hvalue, hlimit⟩ :=
      matchLoop_cases lib r regex content utf8 n rest
    · rw [hx]
      rfl
    · rw [matchLoop_next hsearch hformat hvalue hlimit, Option.isSome_map]
      exact ih (by omega) (by omega)

/-- The values that are stored, with those before them. -/
lemma matchLoop_length {xs : List Extract} {ending : Ending} (hmax : n < r.maxExtracts)
    (h : lib.matchLoop r regex content utf8 turns n rest = some (xs, ending)) :
    n + xs.length ≤ r.maxExtracts := by
  induction turns generalizing rest n xs with
  | zero => cases h
  | succ turns ih =>
    obtain ⟨x, hx, hlen, -⟩ | ⟨mr, value, hsearch, hformat, hvalue, hlimit⟩ :=
      matchLoop_cases lib r regex content utf8 n rest
    · rw [hx] at h
      cases h
      dsimp only at hlen
      omega
    · rw [matchLoop_next hsearch hformat hvalue hlimit] at h
      obtain ⟨⟨ys, ending'⟩, hys, hxs⟩ := Option.map_eq_some_iff.1 h
      cases hxs
      have hlen : n + 1 + ys.length ≤ r.maxExtracts := ih (by omega) hys
      rw [List.length_cons]
      dsimp only
      omega

/-- More turns make no difference to a loop that has come to its end. -/
lemma matchLoop_mono {x : List Extract × Ending}
    (h : lib.matchLoop r regex content utf8 turns n rest = some x) {more : ℕ} (hle : turns ≤ more) :
    lib.matchLoop r regex content utf8 more n rest = some x := by
  induction turns generalizing rest n x more with
  | zero => cases h
  | succ turns ih =>
    obtain ⟨more, rfl⟩ : ∃ k, more = k + 1 := Nat.exists_eq_succ_of_ne_zero (by omega)
    obtain ⟨y, hy, -⟩ | ⟨mr, value, hsearch, hformat, hvalue, hlimit⟩ :=
      matchLoop_cases lib r regex content utf8 n rest
    · rw [hy] at h ⊢
      exact h
    · rw [matchLoop_next hsearch hformat hvalue hlimit] at h ⊢
      obtain ⟨y, hy, hx⟩ := Option.map_eq_some_iff.1 h
      rw [ih hy (Nat.le_of_succ_le_succ hle), Option.map_some, hx]

/-- What all the values of a loop are. -/
lemma matchLoop_stored {x : List Extract × Ending}
    (h : lib.matchLoop r regex content utf8 turns n rest = some x) :
    ∀ e ∈ x.1, lib.Stored r content utf8 e := by
  induction turns generalizing rest n x with
  | zero => cases h
  | succ turns ih =>
    obtain ⟨y, hy, -, hstored⟩ | ⟨mr, value, hsearch, hformat, hvalue, hlimit⟩ :=
      matchLoop_cases lib r regex content utf8 n rest
    · rw [hy] at h
      cases h
      exact hstored
    · rw [matchLoop_next hsearch hformat hvalue hlimit] at h
      obtain ⟨y, hy, hx⟩ := Option.map_eq_some_iff.1 h
      cases hx
      exact List.forall_mem_cons.2 ⟨⟨hvalue, Or.inl rfl⟩, ih hy⟩

/-- Without a limit the loop is finished where there is no match. -/
lemma matchLoop_finished (hmax : r.maxExtracts = 0) (hformat : r.format ≠ []) (n : ℕ) :
    (∃ turns xs, lib.matchLoop r regex content utf8 turns n rest = some (xs, .finished)) ↔
      lib.Exhausts r regex utf8 rest := by
  have hlimit : ∀ n, ¬ (r.maxExtracts ≠ 0 ∧ r.maxExtracts ≤ n + 1) := fun n hlimit =>
    hlimit.1 hmax
  constructor
  · rintro ⟨turns, xs, h⟩
    induction turns generalizing rest n xs with
    | zero => cases h
    | succ turns ih =>
      rcases hsearch : lib.search (utf8 = .yes) regex rest with _ | _ | mr
      · rw [matchLoop, hsearch] at h
        cases h
      · exact .here hsearch
      · cases hvalue : makeUTF8Blob lib.icu lib.memory (lib.format mr r.format) with
        | none =>
          rw [matchLoop, hsearch] at h
          dsimp only at h
          rw [if_neg hformat, storing, setTruncatedString_indeterminate, hvalue] at h
          cases h
        | some value =>
          rw [matchLoop_next hsearch hformat hvalue (hlimit n)] at h
          obtain ⟨⟨ys, ending⟩, hys, hx⟩ := Option.map_eq_some_iff.1 h
          cases hx
          exact .later hsearch (by rw [hvalue]; exact Option.some_ne_none value) (ih _ _ hys)
  · intro h
    induction h generalizing n with
    | here hsearch => exact ⟨1, [], by rw [matchLoop, hsearch]⟩
    | later hsearch hstore hrest ih =>
      obtain ⟨value, hvalue⟩ := Option.ne_none_iff_exists'.1 hstore
      obtain ⟨turns, xs, hxs⟩ := ih (n + 1)
      exact ⟨turns + 1, _, by rw [matchLoop_next hsearch hformat hvalue (hlimit n), hxs]; rfl⟩

/-! ### A text -/

/-- Without an expression the content is stored. -/
lemma setTermValueFromFinalContent_none (hregex : r.matchRegex = none) (turns : ℕ) :
    lib.setTermValueFromFinalContent r turns content utf8 =
      lib.storing r content utf8 fun e => some ([e], .finished) := by
  rw [setTermValueFromFinalContent, hregex]

lemma setTermValueFromFinalContent_some (hregex : r.matchRegex = some regex) (turns : ℕ) :
    lib.setTermValueFromFinalContent r turns content utf8 =
      lib.matchLoop r regex content utf8 turns 0 content := by
  rw [setTermValueFromFinalContent, hregex]

lemma setTermValueFromFinalContent_mono {x : List Extract × Ending}
    (h : lib.setTermValueFromFinalContent r turns content utf8 = some x) {more : ℕ}
    (hle : turns ≤ more) : lib.setTermValueFromFinalContent r more content utf8 = some x := by
  cases hregex : r.matchRegex with
  | none =>
    rw [setTermValueFromFinalContent_none hregex] at h ⊢
    exact h
  | some regex =>
    rw [setTermValueFromFinalContent_some hregex] at h ⊢
    exact matchLoop_mono h hle

lemma setTermValueFromFinalContent_stored {x : List Extract × Ending}
    (h : lib.setTermValueFromFinalContent r turns content utf8 = some x) :
    ∀ e ∈ x.1, lib.Stored r content utf8 e := by
  cases hregex : r.matchRegex with
  | none =>
    obtain ⟨y, hy, -, hstored⟩ := storing_content lib r content utf8
    rw [setTermValueFromFinalContent_none hregex, hy] at h
    cases h
    exact hstored
  | some regex =>
    rw [setTermValueFromFinalContent_some hregex] at h
    exact matchLoop_stored h

/-- The work on a text comes to an end unless it stalls. -/
lemma setTermValueFromFinalContent_terminates :
    (∃ turns x, lib.setTermValueFromFinalContent r turns content utf8 = some x) ↔
      ¬ lib.Endless r content utf8 := by
  cases hregex : r.matchRegex with
  | none =>
    obtain ⟨x, hx, -⟩ := storing_content lib r content utf8
    refine iff_of_true ⟨0, x, (setTermValueFromFinalContent_none hregex 0).trans hx⟩ ?_
    rintro ⟨-, -, regex, hsome, -⟩
    rw [hregex] at hsome
    cases hsome
  | some regex =>
    simp only [setTermValueFromFinalContent_some hregex]
    constructor
    · rintro ⟨turns, x, hx⟩ ⟨hmax, hformat, regex', hsome, hstalls⟩
      rw [hregex] at hsome
      cases hsome
      rw [hstalls.matchLoop_eq_none hmax hformat] at hx
      cases hx
    · intro hendless
      suffices hsome : ∃ turns,
          (lib.matchLoop r regex content utf8 turns 0 content).isSome = true by
        obtain ⟨turns, hturns⟩ := hsome
        exact ⟨turns, Option.isSome_iff_exists.1 hturns⟩
      by_cases hmax : r.maxExtracts = 0
      · by_cases hstalls : lib.Stalls r regex utf8 content
        · -- the first match ends the loop, as there is no format
          obtain ⟨x, hx, -⟩ | ⟨mr, value, -, hformat, -⟩ :=
            matchLoop_cases lib r regex content utf8 0 content
          · exact ⟨1, by rw [hx]; rfl⟩
          · exact absurd ⟨hmax, hformat, regex, hregex, hstalls⟩ hendless
        · exact ⟨_, matchLoop_isSome hstalls (Nat.lt_succ_self _) 0⟩
      · exact ⟨r.maxExtracts, matchLoop_isSome_of_limit (Nat.pos_of_ne_zero hmax) (by omega)⟩

lemma limited_of_eq {x : List Extract × Ending}
    (h : lib.setTermValueFromFinalContent r turns content utf8 = some x) : Limited r x.1 := by
  intro hmax
  have hpos := Nat.pos_of_ne_zero hmax
  cases hregex : r.matchRegex with
  | none =>
    obtain ⟨y, hy, hlen, -⟩ := storing_content lib r content utf8
    rw [setTermValueFromFinalContent_none hregex, hy] at h
    cases h
    omega
  | some regex =>
    rw [setTermValueFromFinalContent_some hregex] at h
    have hlen := matchLoop_length hpos h
    omega

/-! ### The values of a dictionary -/

variable {urlDecoded : Bool} {value : Bytes} {values vs : List Bytes}

/-- The work on the first value, and on the others if it is finished. -/
lemma process_cons (hwork : r.maxSize > 0 ∧ contentRef urlDecoded value ≠ []) :
    lib.process r turns urlDecoded (value :: values) =
      (lib.setTermValueFromFinalContent r turns (contentRef urlDecoded value) .indeterminate).bind
        fun x =>
          if x.2 = .finished then
            (lib.process r turns urlDecoded values).map fun y => (x.1 :: y.1, y.2)
          else some ([x.1], x.2) := by
  rw [process, if_pos hwork]

lemma process_skip (hwork : ¬ (r.maxSize > 0 ∧ contentRef urlDecoded value ≠ [])) :
    lib.process r turns urlDecoded (value :: values) =
      (lib.process r turns urlDecoded values).map fun y => ([] :: y.1, y.2) := by
  rw [process, if_neg hwork]

lemma process_mono {x : List (List Extract) × Ending}
    (h : lib.process r turns urlDecoded values = some x) {more : ℕ} (hle : turns ≤ more) :
    lib.process r more urlDecoded values = some x := by
  induction values generalizing x with
  | nil => exact h
  | cons value values ih =>
    by_cases hwork : r.maxSize > 0 ∧ contentRef urlDecoded value ≠ []
    · rw [process_cons hwork] at h ⊢
      obtain ⟨y, hy, hx⟩ := Option.bind_eq_some_iff.1 h
      rw [setTermValueFromFinalContent_mono hy hle, Option.bind_some]
      split_ifs at hx ⊢
      · obtain ⟨z, hz, hx⟩ := Option.map_eq_some_iff.1 hx
        rw [ih hz, Option.map_some, hx]
      · exact hx
    · rw [process_skip hwork] at h ⊢
      obtain ⟨z, hz, hx⟩ := Option.map_eq_some_iff.1 h
      rw [ih hz, Option.map_some, hx]

/-- Behind values that are finished the loop is as for the other values. -/
lemma process_append {xs : List (List Extract)}
    (h : lib.process r turns urlDecoded values = some (xs, .finished)) :
    lib.process r turns urlDecoded (values ++ vs) =
      (lib.process r turns urlDecoded vs).map fun y => (xs ++ y.1, y.2) := by
  induction values generalizing xs with
  | nil =>
    cases h
    rw [List.nil_append]
    cases lib.process r turns urlDecoded vs <;> rfl
  | cons value values ih =>
    rw [List.cons_append]
    by_cases hwork : r.maxSize > 0 ∧ contentRef urlDecoded value ≠ []
    · rw [process_cons hwork] at h ⊢
      obtain ⟨y, hy, hx⟩ := Option.bind_eq_some_iff.1 h
      rw [hy, Option.bind_some]
      split_ifs at hx ⊢ with hfinished
      · obtain ⟨⟨ys, ending⟩, hys, hx⟩ := Option.map_eq_some_iff.1 hx
        cases hx
        rw [ih hys, Option.map_map]
        rfl
      · exact absurd (congrArg Prod.snd (Option.some.inj hx)) hfinished
    · rw [process_skip hwork] at h ⊢
      obtain ⟨⟨ys, ending⟩, hys, hx⟩ := Option.map_eq_some_iff.1 h
      cases hx
      rw [ih hys, Option.map_map]
      rfl

/-- The loop comes to a value, and works on it. -/
def WorksOn (lib : MatchLibrary μ) (r : ExtractionRule) (urlDecoded : Bool) (values : List Bytes)
    (value : Bytes) : Prop :=
  r.maxSize > 0 ∧ contentRef urlDecoded value ≠ [] ∧
    ∃ before after turns xs, values = before ++ value :: after ∧
      lib.process r turns urlDecoded before = some (xs, .finished)

/-- The loop over the values comes to an end unless one stalls that it comes to. -/
lemma process_terminates :
    (∃ turns x, lib.process r turns urlDecoded values = some x) ↔
      ∀ value, lib.WorksOn r urlDecoded values value →
        ¬ lib.Endless r (contentRef urlDecoded value) .indeterminate := by
  constructor
  · rintro ⟨turns, x, hx⟩ value ⟨hsize, hne, before, after, turns', xs, rfl, hbefore⟩
    refine setTermValueFromFinalContent_terminates.1 ⟨max turns turns', ?_⟩
    have hx := process_mono hx (le_max_left turns turns')
    rw [process_append (process_mono hbefore (le_max_right turns turns'))] at hx
    obtain ⟨y, hy, -⟩ := Option.map_eq_some_iff.1 hx
    rw [process_cons ⟨hsize, hne⟩] at hy
    obtain ⟨z, hz, -⟩ := Option.bind_eq_some_iff.1 hy
    exact ⟨z, hz⟩
  · intro h
    induction values with
    | nil => exact ⟨0, _, rfl⟩
    | cons value values ih =>
      by_cases hwork : r.maxSize > 0 ∧ contentRef urlDecoded value ≠ []
      · obtain ⟨turns, ⟨ys, ending⟩, hy⟩ := setTermValueFromFinalContent_terminates.2
          (h value ⟨hwork.1, hwork.2, [], values, 0, [], rfl, rfl⟩)
        by_cases hfinished : ending = .finished
        · obtain rfl := hfinished
          have hrest : ∃ turns x, lib.process r turns urlDecoded values = some x := by
            refine ih fun v hv => h v ?_
            obtain ⟨hsize, hne, before, after, turns', xs, rfl, hbefore⟩ := hv
            refine ⟨hsize, hne, value :: before, after, max turns turns', ys :: xs, rfl, ?_⟩
            rw [process_cons hwork, setTermValueFromFinalContent_mono hy (le_max_left _ _),
              Option.bind_some, if_pos rfl, process_mono hbefore (le_max_right _ _)]
            rfl
          obtain ⟨turns', x, hx⟩ := hrest
          refine ⟨max turns turns', (ys :: x.1, x.2), ?_⟩
          rw [process_cons hwork, setTermValueFromFinalContent_mono hy (le_max_left _ _),
            Option.bind_some, if_pos rfl, process_mono hx (le_max_right _ _)]
          rfl
        · refine ⟨turns, ([ys], ending), ?_⟩
          rw [process_cons hwork, hy, Option.bind_some, if_neg hfinished]
      · have hrest : ∃ turns x, lib.process r turns urlDecoded values = some x := by
          refine ih fun v hv => h v ?_
          obtain ⟨hsize, hne, before, after, turns', xs, rfl, hbefore⟩ := hv
          refine ⟨hsize, hne, value :: before, after, turns', [] :: xs, rfl, ?_⟩
          rw [process_skip hwork, hbefore]
          rfl
        obtain ⟨turns, x, hx⟩ := hrest
        refine ⟨turns, ([] :: x.1, x.2), ?_⟩
        rw [process_skip hwork, hx]
        rfl

/-- The work on some values is finished if the matches in all their texts come to an end. -/
lemma process_finished (hsize : r.maxSize > 0) (hmax : r.maxExtracts = 0)
    (hformat : r.format ≠ []) (hregex : r.matchRegex = some regex) :
    (∃ turns xs, lib.process r turns urlDecoded values = some (xs, .finished)) ↔
      ∀ v ∈ values, contentRef urlDecoded v ≠ [] →
        lib.Exhausts r regex .indeterminate (contentRef urlDecoded v) := by
  induction values with
  | nil => exact iff_of_true ⟨0, [], rfl⟩ fun _ hmem => absurd hmem List.not_mem_nil
  | cons value values ih =>
    rw [List.forall_mem_cons, ← ih]
    by_cases hne : contentRef urlDecoded value = []
    · have hskip : ¬ (r.maxSize > 0 ∧ contentRef urlDecoded value ≠ []) := fun h => h.2 hne
      simp only [process_skip hskip]
      constructor
      · rintro ⟨turns, xs, h⟩
        obtain ⟨⟨ys, ending⟩, hys, hx⟩ := Option.map_eq_some_iff.1 h
        cases hx
        exact ⟨fun h => absurd hne h, turns, ys, hys⟩
      · rintro ⟨-, turns, ys, hys⟩
        exact ⟨turns, [] :: ys, by rw [hys]; rfl⟩
    · rw [← @matchLoop_finished _ lib r regex (contentRef urlDecoded value) _ _ hmax hformat 0]
      simp only [process_cons ⟨hsize, hne⟩, setTermValueFromFinalContent_some hregex]
      constructor
      · rintro ⟨turns, xs, h⟩
        obtain ⟨⟨ys, ending⟩, hys, hx⟩ := Option.bind_eq_some_iff.1 h
        split_ifs at hx with hfinished
        · obtain ⟨⟨zs, ending'⟩, hzs, hx⟩ := Option.map_eq_some_iff.1 hx
          cases hx
          obtain rfl : ending = .finished := hfinished
          exact ⟨fun _ => ⟨turns, ys, hys⟩, turns, zs, hzs⟩
        · exact absurd (congrArg Prod.snd (Option.some.inj hx)) hfinished
      · rintro ⟨h, turns', zs, hzs⟩
        obtain ⟨turns, ys, hys⟩ := h hne
        refine ⟨max turns turns', ys :: zs, ?_⟩
        rw [matchLoop_mono hys (le_max_left _ _), Option.bind_some, if_pos rfl,
          process_mono hzs (le_max_right _ _)]
        rfl

/-- A rule that comes to a value on which it would stall works on it. -/
lemma worksOn_iff {text : Bytes} (h : lib.Endless r text utf8) :
    lib.WorksOn r urlDecoded values value ↔ lib.Reaches r urlDecoded values value := by
  obtain ⟨hmax, hformat, regex, hregex, -⟩ := h
  constructor
  · rintro ⟨hsize, hne, before, after, turns, xs, rfl, hbefore⟩
    exact ⟨hsize, hne, before, after, rfl, fun v hv hvalue regex' hregex' =>
      (process_finished hsize hmax hformat hregex').1 ⟨turns, xs, hbefore⟩ v hv hvalue⟩
  · rintro ⟨hsize, hne, before, after, rfl, hbefore⟩
    obtain ⟨turns, xs, hfinished⟩ := (process_finished hsize hmax hformat hregex).2
      fun v hv hvalue => hbefore v hv hvalue regex hregex
    exact ⟨hsize, hne, before, after, turns, xs, rfl, hfinished⟩

lemma limited_of_mem {x : List (List Extract) × Ending}
    (h : lib.process r turns urlDecoded values = some x) : ∀ ys ∈ x.1, Limited r ys := by
  induction values generalizing x with
  | nil => cases h; exact fun _ hmem => absurd hmem List.not_mem_nil
  | cons value values ih =>
    by_cases hwork : r.maxSize > 0 ∧ contentRef urlDecoded value ≠ []
    · rw [process_cons hwork] at h
      obtain ⟨y, hy, hx⟩ := Option.bind_eq_some_iff.1 h
      split_ifs at hx
      · obtain ⟨z, hz, hx⟩ := Option.map_eq_some_iff.1 hx
        cases hx
        exact List.forall_mem_cons.2 ⟨limited_of_eq hy, ih hz⟩
      · cases hx
        exact List.forall_mem_singleton.2 (limited_of_eq hy)
    · rw [process_skip hwork] at h
      obtain ⟨z, hz, hx⟩ := Option.map_eq_some_iff.1 h
      cases hx
      exact List.forall_mem_cons.2 ⟨fun _ => Nat.zero_le _, ih hz⟩

/-- The loops of a rule come to an end within its limit, over the values of a dictionary and over a
content, if and only if there is none among the texts that they come to on which a rule without a
limit for its formatted texts finds an empty match where a search begins. -/
theorem extracts_terminate_iff (lib : MatchLibrary μ) (r : ExtractionRule) (urlDecoded : Bool)
    (values : List Bytes) (content : Bytes) (utf8 : Tribool) :
    ((∃ turns xs ending, lib.process r turns urlDecoded values = some (xs, ending) ∧
        ∀ ys ∈ xs, Limited r ys) ↔
      ∀ value, lib.Reaches r urlDecoded values value →
        ¬ lib.Endless r (contentRef urlDecoded value) .indeterminate) ∧
    ((∃ turns ys ending,
        lib.setTermValueFromFinalContent r turns content utf8 = some (ys, ending) ∧
          Limited r ys) ↔
      ¬ lib.Endless r content utf8) := by
  constructor
  · have hreaches : ∀ value, (lib.Reaches r urlDecoded values value →
          ¬ lib.Endless r (contentRef urlDecoded value) .indeterminate) ↔
        (lib.WorksOn r urlDecoded values value →
          ¬ lib.Endless r (contentRef urlDecoded value) .indeterminate) := fun value =>
      ⟨fun h hworks hendless => h ((worksOn_iff hendless).1 hworks) hendless,
        fun h hreach hendless => h ((worksOn_iff hendless).2 hreach) hendless⟩
    rw [forall_congr' hreaches, ← process_terminates]
    constructor
    · rintro ⟨turns, xs, ending, hx, -⟩
      exact ⟨turns, _, hx⟩
    · rintro ⟨turns, ⟨xs, ending⟩, hx⟩
      exact ⟨turns, xs, ending, hx, limited_of_mem hx⟩
  · rw [← setTermValueFromFinalContent_terminates]
    constructor
    · rintro ⟨turns, ys, ending, hy, -⟩
      exact ⟨turns, _, hy⟩
    · rintro ⟨turns, ⟨ys, ending⟩, hy⟩
      exact ⟨turns, ys, ending, hy, limited_of_eq hy⟩

/-- A library that knows the expression `x*`, and the format `$&` of a whole match. -/
def starLibrary : MatchLibrary Bytes where
  search _ regex text := if regex = ascii "x*" then some (some (text.takeWhile (· = 120))) else none
  stop := List.length
  stop_le utf8 regex text m h := by
    split_ifs at h
    cases h
    exact (List.takeWhile_sublist _).length_le
  format m format := if format = ascii "$&" then m else format
  icu := replacingTrails
  memory n := List.replicate n 0
  length_memory _ := List.length_replicate

/-- The expression `x*` finds an empty match in front of the text `a`, again and again. -/
theorem not_extracts_terminate :
    ¬ ∀ (lib : MatchLibrary Bytes) (r : ExtractionRule) (values : List Bytes),
      ∃ turns xs ending, lib.process r turns false values = some (xs, ending) ∧
        ∀ ys ∈ xs, Limited r ys := by
  intro hall
  obtain ⟨turns, xs, ending, hx, -⟩ := hall starLibrary
    { term := {}, source := .csHeader, format := ascii "$&", matchRegex := some (ascii "x*")
      maxExtracts := 0 } [ascii "a"]
  have hterminates := process_terminates.1 ⟨turns, _, hx⟩ (ascii "a")
    ⟨by decide, by decide, [], [], 0, [], rfl, rfl⟩
  exact hterminates ⟨rfl, by decide, _, rfl, .here rfl (by decide) rfl⟩

end MatchLibrary

end PionCore.Platform
