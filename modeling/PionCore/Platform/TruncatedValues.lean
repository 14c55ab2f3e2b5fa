/-
# The limit of a rule

A rule cuts a value at its limit, in front of a character, only where it knows that the text is
UTF-8, which is so for a final content.  The values of parameters, headers and cookies, raw contents
and formatted texts are stored as the event makes them valid UTF-8, of whatever length
(`values_fit_iff`).
-/
import PionCore.Platform.FinalContent

namespace PionCore.Platform

open PionCore.Lib PionCore.Common PionCore.Net EventValidator

namespace ContentLibrary

variable {μ : Type*} {lib : ContentLibrary μ} {r : ExtractionRule} {turns : ℕ}
  {flags : ContentFlags} {q m : HTTPMessage} {e : Extract}

/-- A value is valid UTF-8, within the limit of its rule, and in front of the text it is made of. -/
def Respects (r : ExtractionRule) (e : Extract) : Prop :=
  ValidUTF8 e.value ∧ e.value.length ≤ r.maxSize ∧ e.value <+: e.text

/-- A text that is not known to be UTF-8 is so when it has been trimmed, and is within the limit
then.  Of a final content that was too long to be checked, the part within the limit is UTF-8. -/
def Fits (lib : ContentLibrary μ) (r : ExtractionRule) (e : Extract) : Prop :=
  match e.utf8 with
  | .yes => 2 ^ 32 < e.text.length → ∀ o, setCpStart e.text r.maxSize = some o →
    ValidUTF8 (e.text.take o)
  | _ => e.text.length ≤ 2 ^ 31 ∧
    ∃ o, trimmed lib.icu e.text = some o ∧ o ≤ r.maxSize ∧ ValidUTF8 (e.text.take o)

/-- The cut is in front of a character, and not behind the limit. -/
lemma setCpStart_eq {s : Bytes} {i o : ℕ} (h : setCpStart s i = some o) :
    o ≤ i ∧ isTrail (s.getD o 0) = false := by
  induction i with
  | zero =>
    rw [setCpStart] at h
    split_ifs at h with htrail
    cases h
    exact ⟨le_rfl, by simpa using htrail⟩
  | succ i ih =>
    rw [setCpStart] at h
    split_ifs at h with htrail
    · obtain ⟨hle, hlead⟩ := ih h
      exact ⟨hle.trans (Nat.le_succ i), hlead⟩
    · cases h
      exact ⟨le_rfl, by simpa using htrail⟩

/-- A text that is stored as the event makes it. -/
lemma respects_indeterminate (hicu : lib.icu.Documented) (hkeeps : lib.icu.KeepsCharacters)
    (hsize : r.maxSize < 2 ^ 32) (hutf8 : e.utf8 = .indeterminate)
    (h : lib.setTruncatedString r e.text e.utf8 = some e.value) :
    Respects r e ↔ lib.Fits r e := by
  rw [Fits, hutf8]
  rw [hutf8, MatchLibrary.setTruncatedString_indeterminate] at h
  dsimp only
  by_cases hlen : e.text.length ≤ 2 ^ 31
  · obtain ⟨valid, hvalid, hvalue⟩ := Option.bind_eq_some_iff.1 h
    cases valid with
    | some n =>
      -- the text is stored as far as it is valid, of whatever length
      obtain ⟨htrim, hn⟩ := hicu.isValidUTF8_short hlen hvalid
      have hvalue : e.text.take n = e.value := Option.some.inj hvalue
      have hlength : e.value.length = n := by
        rw [← hvalue, List.length_take_of_le (isValidUTF8_le hvalid)]
      constructor
      · rintro ⟨hutf, hmax, -⟩
        exact ⟨hlen, n, htrim, hlength ▸ hmax, hn⟩
      · rintro ⟨-, o, ho, hmax, -⟩
        obtain rfl := Option.some.inj (htrim.symm.trans ho)
        exact ⟨hvalue ▸ hn, hlength.le.trans hmax, hvalue ▸ List.take_prefix n e.text⟩
    | none =>
      -- a replacement character is no part of the text
      have hreplaced := hicu.replaced_of_eq_none hlen hvalid
      refine iff_of_false ?_ ?_
      · rintro ⟨-, -, hprefix⟩
        exact hicu.not_prefix hkeeps hlen hreplaced hvalue hprefix
      · rintro ⟨-, o, ho, -, hvalidUTF8⟩
        exact (hreplaced.2 o ho).2 hvalidUTF8
  · -- a value of such a text is longer than any limit
    refine iff_of_false ?_ fun hfits => hlen hfits.1
    rintro ⟨-, hmax, -⟩
    have hlong := length_makeUTF8Blob lib.length_memory (not_le.1 hlen) h
    omega

/-- A final content is cut in front of a character. -/
lemma respects_yes (hsize : r.maxSize < 2 ^ 32)
    (htext : ValidUTF8 e.text ∨ 2 ^ 32 < e.text.length) (hutf8 : e.utf8 = .yes)
    (h : lib.setTruncatedString r e.text e.utf8 = some e.value) :
    Respects r e ↔ lib.Fits r e := by
  rw [Fits, hutf8]
  rw [hutf8, MatchLibrary.setTruncatedString] at h
  dsimp only at h ⊢
  split_ifs at h with hcut
  · obtain ⟨o, ho, hvalue⟩ := Option.map_eq_some_iff.1 h
    obtain ⟨hle, hlead⟩ := setCpStart_eq ho
    have hlength : e.value.length ≤ r.maxSize := by
      rw [← hvalue]
      exact (List.length_take_le o e.text).trans hle
    have hprefix : e.value <+: e.text := hvalue ▸ List.take_prefix o e.text
    constructor
    · rintro ⟨hvalid, -⟩ - o' ho'
      obtain rfl := Option.some.inj (ho.symm.trans ho')
      rwa [hvalue]
    · intro hfits
      refine ⟨?_, hlength, hprefix⟩
      rw [← hvalue]
      rcases htext with htext | htext
      · exact validUTF8_take_of_not_trail htext (by omega) hlead
      · exact hfits htext o ho
  · have hvalue : e.text = e.value := Option.some.inj h
    rw [not_lt] at hcut
    have hvalid : ValidUTF8 e.text := htext.resolve_right (by omega)
    refine iff_of_true ?_ fun hlong => absurd hlong (by omega)
    exact ⟨hvalue ▸ hvalid, hvalue ▸ hcut, hvalue ▸ List.prefix_rfl⟩

/-- A text that has been kept is valid, or was too long for the check. -/
lemma validText_cases (hicu : lib.icu.Documented) {body w : Bytes}
    (h : lib.validText body = some w) : ValidUTF8 w ∨ 2 ^ 32 < w.length := by
  obtain ⟨valid, hvalid, h⟩ := Option.bind_eq_some_iff.1 h
  cases valid with
  | none =>
    obtain ⟨b, -, hw⟩ := Option.map_eq_some_iff.1 h
    exact Or.inl (hw ▸ validUTF8_cleanse _)
  | some n =>
    have hw : body.take n = w := Option.some.inj h
    by_cases hlen : body.length ≤ 2 ^ 31
    · exact Or.inl (hw ▸ (hicu.isValidUTF8_short hlen hvalid).2)
    · obtain ⟨hlong, hnone | hsome⟩ := isValidUTF8_far (not_le.1 hlen) hvalid
      · cases hnone
      · cases hsome
        rw [List.take_length] at hw
        exact Or.inr (hw ▸ hlong)

lemma validUTF8_conversion
    (hconvert : ∀ charset s text, lib.toUtf8 charset s = .done text → ValidUTF8 text)
    {charset body text : Bytes} (h : lib.conversion charset body = .done text) :
    ValidUTF8 text := by
  rw [conversion] at h
  cases hs : source body body.length with
  | none =>
    rw [hs] at h
    cases h
  | some s =>
    rw [hs] at h
    exact hconvert charset s text h

/-- And so is every final content. -/
lemma decodeAndConvert_cases (hicu : lib.icu.Documented)
    (hconvert : ∀ charset s text, lib.toUtf8 charset s = .done text → ValidUTF8 text)
    {f g : FinalContent} (h : lib.decodeAndConvert flags m f = some g) :
    g.decodedAndConverted ≠ .indeterminate ∧
      (ValidUTF8 (g.text m) ∨ 2 ^ 32 < (g.text m).length) := by
  have hzero : ValidUTF8 [0] := ValidUTF8.of_ascii (by simp)
  have hconverted : ∀ {body keep}, (∀ g, keep = some g → lib.Keeps m body g) →
      lib.convertOr flags m body keep = some g → g.decodedAndConverted ≠ .indeterminate ∧
        (ValidUTF8 (g.text m) ∨ 2 ^ 32 < (g.text m).length) := by
    intro body keep hkeep h
    obtain ⟨hflag, hcases⟩ := convertOr_cases hkeep h
    refine ⟨hflag, ?_⟩
    rcases hcases with ⟨charset, text, -, -, hconv, htext⟩ | hkept
    · left
      rw [htext]
      exact (validUTF8_conversion hconvert hconv).append hzero
    · exact validText_cases hicu hkept.1
  rw [decodeAndConvert] at h
  cases hdecoding : lib.tryDecoding m with
  | plain => rw [hdecoding] at h; exact hconverted (fun g => keeps_keepContent) h
  | decoded body => rw [hdecoding] at h; exact hconverted (fun g => keeps_keepDecoded) h
  | failed =>
    rw [hdecoding] at h
    obtain ⟨hflag, htext⟩ := keeps_keepContent h
    exact ⟨hflag, validText_cases hicu htext⟩

/-- A value that a rule of an event stores is valid UTF-8, within its limit and in front of the text
it is made of, if and only if the text fits. -/
theorem values_fit_iff (lib : ContentLibrary μ) (hicu : lib.icu.Documented)
    (hkeeps : lib.icu.KeepsCharacters)
    (hconvert : ∀ charset s text, lib.toUtf8 charset s = .done text → ValidUTF8 text)
    (turns : ℕ) (flags : ContentFlags) (q m : HTTPMessage) (rules : List ExtractionRule)
    (hsize : ∀ r ∈ rules, r.maxSize < 2 ^ 32) {runs : List RuleRun}
    (h : lib.runRules turns flags q m rules ({}, {}) = some runs) :
    ∀ x ∈ runs, ∀ e ∈ x.extracts, Respects x.rule e ↔ lib.Fits x.rule e := by
  intro x hx e he
  obtain ⟨hmem, hsound⟩ := sound_runRules (Q := fun _ w => ValidUTF8 w ∨ 2 ^ 32 < w.length)
    (fun m' _ f g _ hfill => decodeAndConvert_cases hicu hconvert hfill)
    (fun hflag => absurd rfl hflag) (fun hflag => absurd rfl hflag) h x hx
  obtain ⟨hstore, hutf8 | ⟨hutf8, m', hworks⟩⟩ := hsound.extracts e he
  · exact respects_indeterminate hicu hkeeps (hsize _ hmem) hutf8 hstore
  · exact respects_yes (hsize _ hmem) (hsound.worksOn m' e.text hworks) hutf8 hstore

/-- The libraries of ASCII pages, with a check of all texts. -/
def headerLibrary : ContentLibrary Bytes := { pageLibrary with toMatchLibrary := .starLibrary }

lemma validUTF8_headerLibrary (charset s text : Bytes)
    (h : headerLibrary.toUtf8 charset s = .done text) : ValidUTF8 text := by
  have hall : ∀ n < 256, String.utf8EncodeChar (Char.ofNat n) =
      if UInt8.ofNat n < 128 then [UInt8.ofNat n]
      else [192 + UInt8.ofNat n / 64, 128 + UInt8.ofNat n % 64] := by
    decide +kernel
  refine ⟨s.map fun c => Char.ofNat c.toNat, ?_⟩
  rw [List.flatMap_map, ← Conversion.done.inj h]
  refine List.flatMap_congr fun c _ => ?_
  rw [hall c.toNat c.toNat_lt, UInt8.ofNat_toNat]

/-- A converted text is cut in front of its zero. -/
theorem values_fit_iff_page :
    ∃ runs, headerLibrary.runRules 1 ⟨true, true⟩ (HTTPMessage.newRequest (ascii "/"))
        (pageResponse (ascii "text/plain; charset=iso-8859-1") 233)
        [{ pageRule with maxSize := 2 }] ({}, {}) = some runs ∧
      ∃ x ∈ runs, ∃ e ∈ x.extracts, e.value = [195, 169] ∧ Respects x.rule e := by
  refine ⟨_, rfl, _, List.mem_cons_self, _, List.mem_cons_self, rfl, ?_⟩
  refine (values_fit_iff headerLibrary replacingTrails_documented replacingTrails_keepsCharacters
    validUTF8_headerLibrary 1 ⟨true, true⟩ (HTTPMessage.newRequest (ascii "/"))
    (pageResponse (ascii "text/plain; charset=iso-8859-1") 233) [{ pageRule with maxSize := 2 }]
    (by decide) rfl _ List.mem_cons_self _ List.mem_cons_self).2 ?_
  exact fun hlong => absurd hlong (by decide)

/-- A rule for a header, with a limit of one byte. -/
def hostRule : ExtractionRule where
  term := { termId := ascii "urn:host", termRef := 1, termType := .string }
  source := .csHeader
  name := ascii "Host"
  maxSize := 1

/-- A header is stored with all its bytes. -/
lemma processDictionary_host :
    headerLibrary.processDictionary hostRule 1 false [(ascii "Host", ascii "ab")] =
      some { rule := hostRule, extracts := [⟨ascii "ab", .indeterminate, ascii "ab"⟩]
             ending := .finished } := by
  have hstore : headerLibrary.setTruncatedString hostRule (ascii "ab") .indeterminate =
      some (ascii "ab") :=
    (replacingTrails_documented.makeUTF8Blob_valid _ (ValidUTF8.of_ascii (by decide +kernel))
      (by decide)).1
  have hset : headerLibrary.setTermValueFromFinalContent hostRule 1 (ascii "ab") .indeterminate =
      some ([⟨ascii "ab", .indeterminate, ascii "ab"⟩], .finished) := by
    rw [MatchLibrary.setTermValueFromFinalContent, show hostRule.matchRegex = none from rfl]
    dsimp only
    rw [MatchLibrary.storing, hstore]
  rw [processDictionary, show dictionaryValues [(ascii "Host", ascii "ab")] hostRule.name =
    [ascii "ab"] from rfl, MatchLibrary.process_cons ⟨by decide, by decide⟩,
    show MatchLibrary.contentRef false (ascii "ab") = ascii "ab" from rfl, hset]
  rfl

theorem not_values_fit :
    ¬ ∀ (lib : ContentLibrary Bytes) (turns : ℕ) (flags : ContentFlags) (q m : HTTPMessage)
      (rules : List ExtractionRule) (runs : List RuleRun), lib.icu.Documented →
      lib.icu.KeepsCharacters → lib.runRules turns flags q m rules ({}, {}) = some runs →
        ∀ x ∈ runs, ∀ e ∈ x.extracts, Respects x.rule e := by
  intro hall
  have hrun : headerLibrary.runRules 1 ⟨true, true⟩
      { HTTPMessage.newRequest (ascii "/") with headers := [(ascii "Host", ascii "ab")] }
      (HTTPMessage.newResponse (ascii "GET")) [hostRule] ({}, {}) =
      some [{ rule := hostRule, extracts := [⟨ascii "ab", .indeterminate, ascii "ab"⟩]
              ending := .finished }] := by
    rw [runRules, runRule, show hostRule.source = .csHeader from rfl]
    dsimp only
    rw [processDictionary_host]
    rfl
  have h := hall _ _ _ _ _ _ _ replacingTrails_documented replacingTrails_keepsCharacters hrun _
    List.mem_cons_self _ List.mem_cons_self
  exact absurd h.2.1 (by decide)

end ContentLibrary

end PionCore.Platform
