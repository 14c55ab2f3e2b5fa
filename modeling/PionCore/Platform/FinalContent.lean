/-
# The content that rules work on

The first rule that needs the content of a message has it decoded and converted, and the others find
the result in the same buffer.  A converted text has its terminator counted, and an encoded content
that is empty when it is decoded is taken for one that cannot be decoded; every other text is what
it is to be, whatever rules have run before (`finalContent_exact_iff`).

The decompressors, the converters and the expressions for the declarations of character sets are
parameters.
-/
import PionCore.Platform.ExtractionLoops
import PionCore.Platform.UTF8Checks

namespace PionCore.Platform

open PionCore.Lib PionCore.Common PionCore.Net EventValidator

def headerContentEncoding : Bytes := ascii "Content-Encoding"

/-- The decompressors, for a format with or without a header. -/
inductive Inflater where
  | gzip
  | zlib (header : Bool)
deriving DecidableEq

/-- What comes of a conversion. -/
inductive Conversion where
  | done (text : Bytes)
  | invalidChar
  | error
deriving DecidableEq

/-- The libraries behind the content of a message. -/
structure ContentLibrary (μ : Type*) extends MatchLibrary μ where
  /-- what a decompressor gives, and whether it comes to the end of the content -/
  inflate : Inflater → Bytes → Bytes × Bool
  /-- `ucnv_open` -/
  opensConverter : Bytes → Bool
  /-- `ucnv_toAlgorithmic` -/
  toUtf8 : Bytes → Bytes → Conversion
  /-- the character set in the content type, and the one in the meta tags of a text -/
  charsetOfType : Bytes → Bytes
  charsetOfContent : Bytes → Bytes
  isUtf8 : Bytes → Bool

/-- What the rules of an event share of a message: the flag, the buffer and the length. -/
structure FinalContent where
  decodedAndConverted : Tribool := .indeterminate
  content : Bytes := []
  length : ℕ := 0

/-- The text that a rule is given. -/
def FinalContent.text (f : FinalContent) (m : HTTPMessage) : Bytes :=
  if f.decodedAndConverted = .yes then f.content.take f.length else m.getContent.take f.length

namespace ContentLibrary

variable {μ : Type*} (lib : ContentLibrary μ)

/-- `writeToSink`, with what is in the sink then: the blocks that were read as a whole. -/
def writeToSink (inflater : Inflater) (content : Bytes) : Bytes × Bool :=
  let x := lib.inflate inflater content
  if x.2 then (x.1, x.1 ≠ []) else (x.1.take (x.1.length / 4096 * 4096), false)

/-- The decompressors for an encoding, of which the second is tried when the first has failed. -/
def inflaters (contentEncoding : Bytes) : List Inflater :=
  if contentEncoding = ascii "gzip" ∨ contentEncoding = ascii "x-gzip" then [.gzip]
  else if contentEncoding = ascii "deflate" ∨ contentEncoding = ascii "x-zlib" then
    [.zlib false, .zlib true]
  else []

/-- What is in the sink when they have been tried. -/
def sink (content : Bytes) : List Inflater → Bytes
  | [] => []
  | [inflater] => (lib.writeToSink inflater content).1
  | inflater :: inflaters =>
    if (lib.writeToSink inflater content).2 then (lib.writeToSink inflater content).1
    else sink content inflaters

/-- The encoding, in small letters. -/
def contentEncoding (m : HTTPMessage) : Bytes := (m.getHeader headerContentEncoding).map toLower

/-- `tryDecoding` -/
def tryDecoding (m : HTTPMessage) : Decoding :=
  if contentEncoding m = [] ∨ contentEncoding m = ascii "identity" then .plain
  else if m.contentLength = 0 then .failed
  else if lib.sink m.getContent (inflaters (contentEncoding m)) = [] then .failed
  else .decoded (lib.sink m.getContent (inflaters (contentEncoding m)))

/-- The character set that a text is converted from, if it is converted. -/
def charset (flags : ContentFlags) (contentType body : Bytes) : Option Bytes :=
  if flags.allowUtf8Conversion then
    let charset :=
      if flags.allowSearchingContentForCharset ∧ lib.charsetOfType contentType = [] ∧
          (ascii "text/html").isPrefixOf contentType then
        lib.charsetOfContent body
      else lib.charsetOfType contentType
    if charset ≠ [] ∧ lib.isUtf8 charset = false then some charset else none
  else none

/-- What the library makes of a text, whose length it is given as an `int32_t`; a negative one is an
error. -/
def conversion (charset body : Bytes) : Conversion :=
  ((source body body.length).map (lib.toUtf8 charset)).getD .error

/-- `tryConvertingToUtf8`: the buffer, or `none` if it has not been converted.  It throws where the
text would be empty, as then the library does not ask for a larger buffer; and the size of the
buffer is an `int`. -/
def tryConvertingToUtf8 (charset body : Bytes) : Option (Option Bytes) :=
  if lib.opensConverter charset = false then some none
  else
    match lib.conversion charset body with
    | .invalidChar => some none
    | .error => none
    | .done text => if text = [] ∨ 2 ^ 31 ≤ text.length + 1 then none else some (some (text ++ [0]))

/-- `getCleansedUTF8Length` and `cleanseUTF8_TEMP`, with the length that the latter sets. -/
def cleansed (body : Bytes) : Option FinalContent :=
  (cleanseUTF8 lib.icu lib.memory body).map fun buffer =>
    { decodedAndConverted := .yes
      content := buffer
      length := (lib.icu.cleanse ((source body body.length).getD [])).length }

/-- The content is used as it is if it is valid, and is cleansed if not. -/
def keepContent (f : FinalContent) (m : HTTPMessage) : Option FinalContent :=
  (isValidUTF8 lib.icu m.getContent).bind fun valid =>
    match valid with
    | some trimmed => some { f with decodedAndConverted := .no, length := trimmed }
    | none => lib.cleansed m.getContent

/-- The same with a decoded content, behind which there is a zero in its buffer. -/
def keepDecoded (body : Bytes) : Option FinalContent :=
  (isValidUTF8 lib.icu body).bind fun valid =>
    match valid with
    | some trimmed =>
      some { decodedAndConverted := .yes, content := body ++ [0], length := trimmed }
    | none => lib.cleansed body

/-- A text is converted, or else is kept. -/
def convertOr (flags : ContentFlags) (m : HTTPMessage) (body : Bytes)
    (keep : Option FinalContent) : Option FinalContent :=
  match lib.charset flags (m.getHeader headerContentType) body with
  | none => keep
  | some charset =>
    (lib.tryConvertingToUtf8 charset body).bind fun converted =>
      match converted with
      | some buffer =>
        some { decodedAndConverted := .yes, content := buffer, length := buffer.length }
      | none => keep

/-- The first part of `processContent`, which decodes and converts; `none` if it throws. -/
def decodeAndConvert (flags : ContentFlags) (m : HTTPMessage) (f : FinalContent) :
    Option FinalContent :=
  match lib.tryDecoding m with
  | .plain => lib.convertOr flags m m.getContent (lib.keepContent f m)
  | .decoded body => lib.convertOr flags m body (lib.keepDecoded body)
  | .failed => lib.keepContent f m

/-- The content type is one that the rule is for; `none` if the search throws. -/
def matchesType (r : ExtractionRule) (m : HTTPMessage) : Option Bool :=
  match r.typeRegex with
  | none => some true
  | some regex => (lib.search false regex (m.getHeader headerContentType)).map Option.isSome

/-- What a rule does for an event, with the message and the text it works on if that is the final
content. -/
structure RuleRun where
  rule : ExtractionRule
  extracts : List Extract
  ending : Ending
  worksOn : Option (HTTPMessage × Bytes) := none

/-- `processContent`; `none` if more turns are needed. -/
def processContent (r : ExtractionRule) (turns : ℕ) (flags : ContentFlags) (m : HTTPMessage)
    (f : FinalContent) : Option (RuleRun × FinalContent) :=
  if r.maxSize > 0 ∧ m.contentLength > 0 then
    match lib.matchesType r m with
    | none => some ({ rule := r, extracts := [], ending := .regexFailure }, f)
    | some false => some ({ rule := r, extracts := [], ending := .finished }, f)
    | some true =>
      match if f.decodedAndConverted = .indeterminate then lib.decodeAndConvert flags m f
        else some f with
      | none => some ({ rule := r, extracts := [], ending := .failed }, f)
      | some f =>
        (lib.setTermValueFromFinalContent r turns (f.text m) .yes).map fun x =>
          ({ rule := r, extracts := x.1, ending := x.2, worksOn := some (m, f.text m) }, f)
  else some ({ rule := r, extracts := [], ending := .finished }, f)

/-- `processRawContent` -/
def processRawContent (r : ExtractionRule) (turns : ℕ) (m : HTTPMessage) : Option RuleRun :=
  if r.maxSize > 0 ∧ m.contentLength > 0 then
    match lib.matchesType r m with
    | none => some { rule := r, extracts := [], ending := .regexFailure }
    | some false => some { rule := r, extracts := [], ending := .finished }
    | some true =>
      (lib.setTermValueFromFinalContent r turns m.getContent .indeterminate).map fun x =>
        { rule := r, extracts := x.1, ending := x.2 }
  else some { rule := r, extracts := [], ending := .finished }

/-- `process`, for the values of a dictionary with the name of the rule. -/
def processDictionary (r : ExtractionRule) (turns : ℕ) (urlDecoded : Bool) (d : StringDictionary) :
    Option RuleRun :=
  (lib.process r turns urlDecoded (dictionaryValues d r.name)).map fun x =>
    { rule := r, extracts := x.1.flatten, ending := x.2 }

/-- The final contents of an event, of the request and of the response. -/
abbrev FinalContents : Type := FinalContent × FinalContent

/-- The `switch` over the source of a rule. -/
def runRule (r : ExtractionRule) (turns : ℕ) (flags : ContentFlags) (q m : HTTPMessage)
    (fs : FinalContents) : Option (RuleRun × FinalContents) :=
  match r.source with
  | .query => (lib.processDictionary r turns true q.getQueryParams).map fun x => (x, fs)
  | .cookie =>
    (lib.processDictionary r turns false q.cookieParams).bind fun x =>
      if x.ending = .finished then
        (lib.processDictionary r turns false m.cookieParams).map fun y =>
          ({ y with extracts := x.extracts ++ y.extracts }, fs)
      else some (x, fs)
  | .csCookie => (lib.processDictionary r turns false q.cookieParams).map fun x => (x, fs)
  | .scCookie => (lib.processDictionary r turns false m.cookieParams).map fun x => (x, fs)
  | .csHeader => (lib.processDictionary r turns false q.headers).map fun x => (x, fs)
  | .scHeader => (lib.processDictionary r turns false m.headers).map fun x => (x, fs)
  | .csContent =>
    (lib.processContent r turns flags q fs.1).map fun x => (x.1, x.2, fs.2)
  | .scContent =>
    (lib.processContent r turns flags m fs.2).map fun x => (x.1, fs.1, x.2)
  | .csRawContent => (lib.processRawContent r turns q).map fun x => (x, fs)
  | .scRawContent => (lib.processRawContent r turns m).map fun x => (x, fs)

/-- The loop of `generateEvent` over the rules that are running.  The failure of an expression ends
a rule only, other exceptions end the loop. -/
def runRules (turns : ℕ) (flags : ContentFlags) (q m : HTTPMessage) :
    List ExtractionRule → FinalContents → Option (List RuleRun)
  | [], _ => some []
  | r :: rules, fs =>
    (lib.runRule r turns flags q m fs).bind fun x =>
      if x.1.ending = .failed then some [x.1]
      else (runRules turns flags q m rules x.2).map fun runs => x.1 :: runs

/-! ### What the text is to be -/

/-- The content as its encoding is undone: what the decompressors give, if they come to the end or
if there is something of it; a content that cannot be decoded stays as it is. -/
def decode (m : HTTPMessage) : Decoding :=
  if contentEncoding m = [] ∨ contentEncoding m = ascii "identity" then .plain
  else if lib.sink m.getContent (inflaters (contentEncoding m)) = [] ∧
      ¬ ∃ inflater ∈ inflaters (contentEncoding m),
        (lib.inflate inflater m.getContent).2 = true then
    .failed
  else .decoded (lib.sink m.getContent (inflaters (contentEncoding m)))

/-- A text that is not converted: without an incomplete character at its end, or with its ill-formed
sequences replaced; `none` if the check or the library fails. -/
def validText (body : Bytes) : Option Bytes :=
  (isValidUTF8 lib.icu body).bind fun valid =>
    match valid with
    | some trimmed => some (body.take trimmed)
    | none =>
      (cleanseUTF8 lib.icu lib.memory body).map fun _ =>
        lib.icu.cleanse ((source body body.length).getD [])

/-- A text as its character set is converted; one that declares none to convert from, or one that is
not known, or that is not in the set it declares, stays as it is.  There is nothing to convert in an
empty text. -/
def convert (flags : ContentFlags) (m : HTTPMessage) (body : Bytes) : Option Bytes :=
  if body = [] then some []
  else
    match lib.charset flags (m.getHeader headerContentType) body with
    | none => lib.validText body
    | some charset =>
      if lib.opensConverter charset = false then lib.validText body
      else
        match lib.conversion charset body with
        | .done text => some text
        | .invalidChar => lib.validText body
        | .error => none

/-- The decoded and converted content. -/
def finalText (flags : ContentFlags) (m : HTTPMessage) : Option Bytes :=
  match lib.decode m with
  | .plain => lib.convert flags m m.getContent
  | .decoded body => lib.convert flags m body
  | .failed => lib.validText m.getContent

/-- A text is converted. -/
def Converts (flags : ContentFlags) (m : HTTPMessage) (body : Bytes) : Prop :=
  ∃ charset text, lib.charset flags (m.getHeader headerContentType) body = some charset ∧
    lib.opensConverter charset = true ∧ lib.conversion charset body = .done text

/-- No text is converted.  An encoded content that is empty when it is decoded is an incomplete
character, of which nothing is left. -/
def StaysExact (flags : ContentFlags) (m : HTTPMessage) : Prop :=
  match lib.decode m with
  | .plain => ¬ lib.Converts flags m m.getContent
  | .decoded body =>
    if body = [] then lib.validText m.getContent = some [] else ¬ lib.Converts flags m body
  | .failed => True

variable {lib} {r : ExtractionRule} {turns : ℕ} {flags : ContentFlags} {q m : HTTPMessage}
  {body : Bytes} {f g : FinalContent} {fs : FinalContents}

/-! ### The text of a message -/

/-- What is known of a final content when a text has been kept. -/
def Keeps (lib : ContentLibrary μ) (m : HTTPMessage) (body : Bytes) (g : FinalContent) : Prop :=
  g.decodedAndConverted ≠ .indeterminate ∧ lib.validText body = some (g.text m)

lemma keeps_cleansed (hvalid : isValidUTF8 lib.icu body = some none)
    (h : lib.cleansed body = some g) : lib.Keeps m body g := by
  obtain ⟨buffer, hbuffer, hg⟩ := Option.map_eq_some_iff.1 h
  subst hg
  refine ⟨Tribool.noConfusion, ?_⟩
  rw [validText, hvalid, Option.bind_some]
  dsimp only
  rw [hbuffer, Option.map_some, FinalContent.text, if_pos rfl, take_cleanseUTF8 hbuffer]

lemma keeps_keepContent (h : lib.keepContent f m = some g) : lib.Keeps m m.getContent g := by
  obtain ⟨valid, hvalid, h⟩ := Option.bind_eq_some_iff.1 h
  cases valid with
  | none => exact keeps_cleansed hvalid h
  | some n =>
    cases h
    refine ⟨Tribool.noConfusion, ?_⟩
    rw [validText, hvalid, Option.bind_some]
    rfl

lemma keeps_keepDecoded (h : lib.keepDecoded body = some g) : lib.Keeps m body g := by
  obtain ⟨valid, hvalid, h⟩ := Option.bind_eq_some_iff.1 h
  cases valid with
  | none => exact keeps_cleansed hvalid h
  | some n =>
    cases h
    refine ⟨Tribool.noConfusion, ?_⟩
    rw [validText, hvalid, Option.bind_some, FinalContent.text, if_pos rfl]
    dsimp only
    rw [List.take_append_of_le_length (isValidUTF8_le hvalid)]

/-- A text is converted, with a zero behind it, or is kept as it is to be. -/
lemma convertOr_cases {keep : Option FinalContent} (hkeep : ∀ g, keep = some g → lib.Keeps m body g)
    (h : lib.convertOr flags m body keep = some g) :
    g.decodedAndConverted ≠ .indeterminate ∧
      ((∃ charset text, lib.charset flags (m.getHeader headerContentType) body = some charset ∧
        lib.opensConverter charset = true ∧ lib.conversion charset body = .done text ∧
        g.text m = text ++ [0]) ∨
      (lib.validText body = some (g.text m) ∧ ¬ lib.Converts flags m body ∧
        (body ≠ [] → lib.convert flags m body = lib.validText body))) := by
  rw [convertOr] at h
  cases hset : lib.charset flags (m.getHeader headerContentType) body with
  | none =>
    rw [hset] at h
    obtain ⟨hflag, htext⟩ := hkeep g h
    refine ⟨hflag, Or.inr ⟨htext, ?_, fun hne => ?_⟩⟩
    · rintro ⟨charset, text, hcharset, -⟩
      rw [hset] at hcharset
      cases hcharset
    · rw [convert, if_neg hne, hset]
  | some charset =>
    rw [hset] at h
    obtain ⟨converted, hconverted, h⟩ := Option.bind_eq_some_iff.1 h
    rw [tryConvertingToUtf8] at hconverted
    by_cases hopens : lib.opensConverter charset = false
    · -- a character set that the library does not know
      rw [if_pos hopens] at hconverted
      cases hconverted
      obtain ⟨hflag, htext⟩ := hkeep g h
      refine ⟨hflag, Or.inr ⟨htext, ?_, fun hne => ?_⟩⟩
      · rintro ⟨charset', text, hcharset, hopen, -⟩
        rw [hset] at hcharset
        cases hcharset
        rw [hopens] at hopen
        cases hopen
      · rw [convert, if_neg hne, hset]
        dsimp only
        rw [if_pos hopens]
    · rw [if_neg hopens] at hconverted
      cases hconv : lib.conversion charset body with
      | error => rw [hconv] at hconverted; cases hconverted
      | invalidChar =>
        rw [hconv] at hconverted
        cases hconverted
        obtain ⟨hflag, htext⟩ := hkeep g h
        refine ⟨hflag, Or.inr ⟨htext, ?_, fun hne => ?_⟩⟩
        · rintro ⟨charset', text, hcharset, -, hdone⟩
          rw [hset] at hcharset
          cases hcharset
          rw [hconv] at hdone
          cases hdone
        · rw [convert, if_neg hne, hset]
          dsimp only
          rw [if_neg hopens, hconv]
      | done text =>
        -- the length of the buffer is that of the text and its terminator
        rw [hconv] at hconverted
        dsimp only at hconverted
        split_ifs at hconverted
        cases hconverted
        cases h
        refine ⟨Tribool.noConfusion, Or.inl ⟨charset, text, rfl, by simpa using hopens, hconv, ?_⟩⟩
        rw [FinalContent.text, if_pos rfl, List.take_length]

/-- The text is what it is to be if it has not been converted. -/
lemma convertOr_exact {keep : Option FinalContent} (hkeep : ∀ g, keep = some g → lib.Keeps m body g)
    (hne : body ≠ []) (h : lib.convertOr flags m body keep = some g) :
    g.decodedAndConverted ≠ .indeterminate ∧
      (lib.convert flags m body = some (g.text m) ↔ ¬ lib.Converts flags m body) := by
  obtain ⟨hflag, ⟨charset, text, hset, hopens, hconv, htext⟩ | ⟨htext, hnot, hconvert⟩⟩ :=
    convertOr_cases hkeep h
  · refine ⟨hflag, iff_of_false (fun heq => ?_) fun hnot =>
      hnot ⟨charset, text, hset, hopens, hconv⟩⟩
    rw [convert, if_neg hne, hset] at heq
    dsimp only at heq
    rw [hopens, if_neg Bool.noConfusion, hconv, htext] at heq
    exact absurd (congrArg List.length (Option.some.inj heq)) (by simp)
  · exact ⟨hflag, iff_of_true ((hconvert hne).trans htext) hnot⟩

lemma getContent_ne_nil (hlen : 0 < m.contentLength) : m.getContent ≠ [] := by
  apply List.ne_nil_of_length_pos
  rw [HTTPMessage.getContent, List.length_map, HTTPMessage.contentCells, List.length_map,
    List.length_range]
  exact hlen

/-- The rule that finds the buffer empty fills it with the text, where this stays exact. -/
lemma decodeAndConvert_exact (hlen : 0 < m.contentLength)
    (h : lib.decodeAndConvert flags m f = some g) :
    g.decodedAndConverted ≠ .indeterminate ∧
      (lib.finalText flags m = some (g.text m) ↔ lib.StaysExact flags m) := by
  rw [decodeAndConvert, tryDecoding] at h
  rw [finalText, StaysExact, decode]
  by_cases hplain : contentEncoding m = [] ∨ contentEncoding m = ascii "identity"
  · rw [if_pos hplain] at h ⊢
    exact convertOr_exact (fun g => keeps_keepContent) (getContent_ne_nil hlen) h
  · rw [if_neg hplain, if_neg hlen.ne'] at h
    rw [if_neg hplain]
    by_cases hsink : lib.sink m.getContent (inflaters (contentEncoding m)) = []
    · -- nothing has come out of the decompressors
      rw [if_pos hsink] at h
      obtain ⟨hflag, htext⟩ := keeps_keepContent h
      refine ⟨hflag, ?_⟩
      split_ifs with hended
      · exact iff_of_true htext trivial
      · rw [hsink]
        dsimp only
        rw [if_pos rfl, convert, if_pos rfl, htext]
        exact eq_comm
    · rw [if_neg hsink] at h
      rw [if_neg fun hended => hsink hended.1]
      dsimp only
      rw [if_neg hsink]
      exact convertOr_exact (fun g => keeps_keepDecoded) hsink h

/-! ### The rules of an event -/

/-- What holds of the texts of messages, and of the values that are stored. -/
structure RuleRun.Sound (lib : ContentLibrary μ) (Q : HTTPMessage → Bytes → Prop) (x : RuleRun) :
    Prop where
  worksOn : ∀ m w, x.worksOn = some (m, w) → Q m w
  extracts : ∀ e ∈ x.extracts, lib.setTruncatedString x.rule e.text e.utf8 = some e.value ∧
    (e.utf8 = .indeterminate ∨ e.utf8 = .yes ∧ ∃ m, x.worksOn = some (m, e.text))

/-- The text in the buffer, if there is one. -/
def Holds (Q : HTTPMessage → Bytes → Prop) (m : HTTPMessage) (f : FinalContent) : Prop :=
  f.decodedAndConverted ≠ .indeterminate → Q m (f.text m)

/-- The values of a dictionary are stored as texts that may not be UTF-8. -/
lemma process_extracts {lib : MatchLibrary μ} {urlDecoded : Bool} {values : List Bytes}
    {x : List (List Extract) × Ending} (h : lib.process r turns urlDecoded values = some x) :
    ∀ e ∈ x.1.flatten, lib.setTruncatedString r e.text e.utf8 = some e.value ∧
      e.utf8 = .indeterminate := by
  induction values generalizing x with
  | nil => cases h; exact fun _ hmem => absurd hmem List.not_mem_nil
  | cons value values ih =>
    have hfirst : ∀ y, lib.setTermValueFromFinalContent r turns
        (MatchLibrary.contentRef urlDecoded value) .indeterminate = some y →
        ∀ e ∈ y.1, lib.setTruncatedString r e.text e.utf8 = some e.value ∧
          e.utf8 = .indeterminate := by
      intro y hy e he
      obtain ⟨hstore, hutf8 | ⟨hutf8, -⟩⟩ := MatchLibrary.setTermValueFromFinalContent_stored hy e he
      · exact ⟨hstore, hutf8⟩
      · exact ⟨hstore, hutf8⟩
    by_cases hwork : r.maxSize > 0 ∧ MatchLibrary.contentRef urlDecoded value ≠ []
    · rw [MatchLibrary.process_cons hwork] at h
      obtain ⟨y, hy, hx⟩ := Option.bind_eq_some_iff.1 h
      split_ifs at hx
      · obtain ⟨z, hz, hx⟩ := Option.map_eq_some_iff.1 hx
        cases hx
        intro e he
        rw [List.flatten_cons, List.mem_append] at he
        exact he.elim (hfirst y hy e) (ih hz e)
      · cases hx
        rw [List.flatten_singleton]
        exact hfirst y hy
    · rw [MatchLibrary.process_skip hwork] at h
      obtain ⟨z, hz, hx⟩ := Option.map_eq_some_iff.1 h
      cases hx
      rw [List.flatten_cons, List.nil_append]
      exact ih hz

variable {Q : HTTPMessage → Bytes → Prop} {x : RuleRun}

lemma sound_of_eq_nil (h : x.extracts = []) (hworks : x.worksOn = none) : x.Sound lib Q where
  worksOn m w heq := by
    rw [hworks] at heq
    cases heq
  extracts e he := by
    rw [h] at he
    exact absurd he List.not_mem_nil

lemma sound_processDictionary {urlDecoded : Bool} {d : StringDictionary}
    (h : lib.processDictionary r turns urlDecoded d = some x) :
    x.rule = r ∧ x.worksOn = none ∧ x.Sound lib Q := by
  obtain ⟨y, hy, hx⟩ := Option.map_eq_some_iff.1 h
  subst hx
  refine ⟨rfl, rfl, ⟨fun _ _ heq => (by cases heq), fun e he => ?_⟩⟩
  obtain ⟨hstore, hutf8⟩ := process_extracts hy e he
  exact ⟨hstore, Or.inl hutf8⟩

lemma sound_processRawContent (h : lib.processRawContent r turns m = some x) :
    x.rule = r ∧ x.Sound lib Q := by
  rw [processRawContent] at h
  split_ifs at h
  · rcases htype : lib.matchesType r m with _ | _ | _
    · rw [htype] at h; cases h; exact ⟨rfl, sound_of_eq_nil rfl rfl⟩
    · rw [htype] at h; cases h; exact ⟨rfl, sound_of_eq_nil rfl rfl⟩
    · rw [htype] at h
      obtain ⟨y, hy, hx⟩ := Option.map_eq_some_iff.1 h
      subst hx
      refine ⟨rfl, ⟨fun _ _ heq => (by cases heq), fun e he => ?_⟩⟩
      obtain ⟨hstore, hutf8 | ⟨hutf8, -⟩⟩ := MatchLibrary.setTermValueFromFinalContent_stored hy e he
      · exact ⟨hstore, Or.inl hutf8⟩
      · exact ⟨hstore, Or.inl hutf8⟩
  · cases h
    exact ⟨rfl, sound_of_eq_nil rfl rfl⟩

/-- A content rule works on what the first one of them has put into the buffer. -/
lemma sound_processContent
    (hQ : ∀ f g, 0 < m.contentLength → lib.decodeAndConvert flags m f = some g →
      g.decodedAndConverted ≠ .indeterminate ∧ Q m (g.text m))
    (hf : Holds Q m f) (h : lib.processContent r turns flags m f = some (x, g)) :
    x.rule = r ∧ x.Sound lib Q ∧ Holds Q m g := by
  rw [processContent] at h
  by_cases hlen : r.maxSize > 0 ∧ m.contentLength > 0
  · rw [if_pos hlen] at h
    rcases htype : lib.matchesType r m with _ | _ | _
    · rw [htype] at h; cases h; exact ⟨rfl, sound_of_eq_nil rfl rfl, hf⟩
    · rw [htype] at h; cases h; exact ⟨rfl, sound_of_eq_nil rfl rfl, hf⟩
    · rw [htype] at h
      dsimp only at h
      -- the buffer behind the first part, which holds the text now
      cases hfill : (if f.decodedAndConverted = .indeterminate then lib.decodeAndConvert flags m f
        else some f) with
      | none => rw [hfill] at h; cases h; exact ⟨rfl, sound_of_eq_nil rfl rfl, hf⟩
      | some f' =>
        have hfilled : Q m (f'.text m) := by
          by_cases hflag : f.decodedAndConverted = .indeterminate
          · rw [if_pos hflag] at hfill
            exact (hQ f f' hlen.2 hfill).2
          · rw [if_neg hflag] at hfill
            cases hfill
            exact hf hflag
        rw [hfill] at h
        obtain ⟨y, hy, hx⟩ := Option.map_eq_some_iff.1 h
        cases hx
        refine ⟨rfl, ⟨fun _ _ heq => ?_, fun e he => ?_⟩, fun _ => hfilled⟩
        · cases heq
          exact hfilled
        · obtain ⟨hstore, hutf8 | ⟨hutf8, htext⟩⟩ := MatchLibrary.setTermValueFromFinalContent_stored hy e he
          · exact ⟨hstore, Or.inl hutf8⟩
          · exact ⟨hstore, Or.inr ⟨hutf8, m, by rw [htext]⟩⟩
  · rw [if_neg hlen] at h
    cases h
    exact ⟨rfl, sound_of_eq_nil rfl rfl, hf⟩

/-- What a rule preserves of the contents of an event. -/
lemma sound_runRule
    (hQ : ∀ m ∈ [q, m], ∀ f g, 0 < m.contentLength → lib.decodeAndConvert flags m f = some g →
      g.decodedAndConverted ≠ .indeterminate ∧ Q m (g.text m))
    (hq : Holds Q q fs.1) (hm : Holds Q m fs.2) {gs : FinalContents}
    (h : lib.runRule r turns flags q m fs = some (x, gs)) :
    x.rule = r ∧ x.Sound lib Q ∧ Holds Q q gs.1 ∧ Holds Q m gs.2 := by
  -- the sources that leave the contents as they are
  have hdictionary : ∀ {urlDecoded : Bool} {d : StringDictionary},
      (lib.processDictionary r turns urlDecoded d).map (fun x => (x, fs)) = some (x, gs) →
      x.rule = r ∧ x.Sound lib Q ∧ Holds Q q gs.1 ∧ Holds Q m gs.2 := by
    intro urlDecoded d h
    obtain ⟨y, hy, hx⟩ := Option.map_eq_some_iff.1 h
    cases hx
    obtain ⟨hrule, -, hsound⟩ := sound_processDictionary hy
    exact ⟨hrule, hsound, hq, hm⟩
  have hraw : ∀ {m' : HTTPMessage},
      (lib.processRawContent r turns m').map (fun x => (x, fs)) = some (x, gs) →
      x.rule = r ∧ x.Sound lib Q ∧ Holds Q q gs.1 ∧ Holds Q m gs.2 := by
    intro m' h
    obtain ⟨y, hy, hx⟩ := Option.map_eq_some_iff.1 h
    cases hx
    obtain ⟨hrule, hsound⟩ := sound_processRawContent hy
    exact ⟨hrule, hsound, hq, hm⟩
  rw [runRule] at h
  cases hsource : r.source <;> rw [hsource] at h <;> dsimp only at h
  case query | csCookie | scCookie | csHeader | scHeader => exact hdictionary h
  case csRawContent | scRawContent => exact hraw h
  case cookie =>
    obtain ⟨y, hy, h⟩ := Option.bind_eq_some_iff.1 h
    obtain ⟨hrule, hworks, hsound⟩ := sound_processDictionary hy (Q := Q)
    split_ifs at h
    · -- the cookies of the response, behind those of the request
      obtain ⟨z, hz, hx⟩ := Option.map_eq_some_iff.1 h
      cases hx
      obtain ⟨hrule', hworks', hsound'⟩ := sound_processDictionary hz (Q := Q)
      refine ⟨hrule', ⟨hsound'.worksOn, fun e he => ?_⟩, hq, hm⟩
      rcases List.mem_append.1 he with he | he
      · obtain ⟨hstore, hutf8⟩ := hsound.extracts e he
        rw [hrule, ← hrule'] at hstore
        refine ⟨hstore, hutf8.imp id fun hcontent => ?_⟩
        obtain ⟨-, m, heq⟩ := hcontent
        rw [hworks] at heq
        cases heq
      · exact hsound'.extracts e he
    · cases h
      exact ⟨hrule, hsound, hq, hm⟩
  case csContent =>
    obtain ⟨⟨y, g⟩, hy, hx⟩ := Option.map_eq_some_iff.1 h
    cases hx
    obtain ⟨hrule, hsound, hg⟩ := sound_processContent (hQ q (by simp)) hq hy
    exact ⟨hrule, hsound, hg, hm⟩
  case scContent =>
    obtain ⟨⟨y, g⟩, hy, hx⟩ := Option.map_eq_some_iff.1 h
    cases hx
    obtain ⟨hrule, hsound, hg⟩ := sound_processContent (hQ m (by simp)) hm hy
    exact ⟨hrule, hsound, hq, hg⟩

/-- And all the rules of an event. -/
lemma sound_runRules
    (hQ : ∀ m ∈ [q, m], ∀ f g, 0 < m.contentLength → lib.decodeAndConvert flags m f = some g →
      g.decodedAndConverted ≠ .indeterminate ∧ Q m (g.text m))
    (hq : Holds Q q fs.1) (hm : Holds Q m fs.2) {rules : List ExtractionRule} {runs : List RuleRun}
    (h : lib.runRules turns flags q m rules fs = some runs) :
    ∀ x ∈ runs, x.rule ∈ rules ∧ x.Sound lib Q := by
  induction rules generalizing fs runs with
  | nil => cases h; exact fun _ hmem => absurd hmem List.not_mem_nil
  | cons r rules ih =>
    obtain ⟨⟨x, gs⟩, hx, h⟩ := Option.bind_eq_some_iff.1 h
    obtain ⟨hrule, hsound, hq', hm'⟩ := sound_runRule hQ hq hm hx
    have hhead : x.rule ∈ r :: rules ∧ x.Sound lib Q := ⟨hrule ▸ List.mem_cons_self, hsound⟩
    dsimp only at h
    split_ifs at h
    · cases h
      exact List.forall_mem_singleton.2 hhead
    · obtain ⟨xs, hxs, heq⟩ := Option.map_eq_some_iff.1 h
      subst heq
      refine List.forall_mem_cons.2 ⟨hhead, fun y hy => ?_⟩
      obtain ⟨hmem, hy⟩ := ih hq' hm' hxs y hy
      exact ⟨List.mem_cons_of_mem r hmem, hy⟩

/-- Whatever rules an event has and in whatever order, the text that a rule works on is the decoded
and converted content of the message if and only if this stays exact. -/
theorem finalContent_exact_iff (lib : ContentLibrary μ) (turns : ℕ) (flags : ContentFlags)
    (q m : HTTPMessage) (rules : List ExtractionRule) {runs : List RuleRun}
    (h : lib.runRules turns flags q m rules ({}, {}) = some runs) :
    ∀ x ∈ runs, ∀ m' w, x.worksOn = some (m', w) →
      (lib.finalText flags m' = some w ↔ lib.StaysExact flags m') := by
  intro x hx
  have hsound := sound_runRules
    (Q := fun m' w => lib.finalText flags m' = some w ↔ lib.StaysExact flags m')
    (fun m' _ f g hlen hfill => decodeAndConvert_exact hlen hfill)
    (fun hflag => absurd rfl hflag) (fun hflag => absurd rfl hflag) h x hx
  exact hsound.2.worksOn

/-- Libraries for texts of ASCII, and for converting them and others from ISO 8859-1. -/
def pageLibrary : ContentLibrary Bytes where
  toMatchLibrary := { MatchLibrary.starLibrary with
    icu := {
      pieces s := s.map fun b => if b < 128 then .char (Char.ofNat b.toNat) else .ill [b]
      isLead b := 194 ≤ b ∧ b ≤ 244
      countTrailBytes b := if b < 224 then 1 else if b < 240 then 2 else 3 } }
  inflate _ _ := ([], false)
  opensConverter charset := charset = ascii "iso-8859-1"
  toUtf8 _ s := .done (s.flatMap fun c => if c < 128 then [c] else [192 + c / 64, 128 + c % 64])
  charsetOfType contentType :=
    if contentType = ascii "text/plain; charset=iso-8859-1" then ascii "iso-8859-1" else []
  charsetOfContent _ := []
  isUtf8 charset := charset = ascii "utf-8"

/-- A response with one byte. -/
def pageResponse (contentType : Bytes) (c : Byte) : HTTPMessage :=
  { HTTPMessage.newResponse (ascii "GET") with
    headers := [(headerContentType, contentType)]
    contentLength := 1
    contentBuf := some [some c] }

/-- The content of responses is extracted. -/
def pageRule : ExtractionRule where
  term := { termId := ascii "urn:text", termRef := 1, termType := .string }
  source := .scContent

/-- Two rules, for a text that is not converted. -/
theorem finalContent_exact_iff_page :
    ∃ runs, pageLibrary.runRules 1 ⟨true, true⟩ (HTTPMessage.newRequest (ascii "/"))
        (pageResponse (ascii "text/plain") 97) [pageRule, pageRule] ({}, {}) = some runs ∧
      ∃ x ∈ runs, x.worksOn = some (pageResponse (ascii "text/plain") 97, ascii "a") ∧
        pageLibrary.finalText ⟨true, true⟩ (pageResponse (ascii "text/plain") 97) =
          some (ascii "a") := by
  refine ⟨_, rfl, _, List.mem_cons_self, rfl, ?_⟩
  refine (finalContent_exact_iff pageLibrary 1 ⟨true, true⟩ (HTTPMessage.newRequest (ascii "/"))
    (pageResponse (ascii "text/plain") 97) [pageRule, pageRule] rfl _ List.mem_cons_self _ _
    rfl).2 ?_
  rintro ⟨charset, text, hcharset, -⟩
  cases hcharset

/-- A text that is converted gets a zero. -/
theorem not_finalContent_exact :
    ¬ ∀ (lib : ContentLibrary Bytes) (turns : ℕ) (flags : ContentFlags) (q m : HTTPMessage)
      (rules : List ExtractionRule) (runs : List RuleRun),
      lib.runRules turns flags q m rules ({}, {}) = some runs →
        ∀ x ∈ runs, ∀ m' w, x.worksOn = some (m', w) → lib.finalText flags m' = some w := by
  intro hall
  have h := hall pageLibrary 1 ⟨true, true⟩ (HTTPMessage.newRequest (ascii "/"))
    (pageResponse (ascii "text/plain; charset=iso-8859-1") 233) [pageRule] _ rfl _
    List.mem_cons_self _ [195, 169, 0] rfl
  exact absurd h (by decide)

end ContentLibrary

end PionCore.Platform
