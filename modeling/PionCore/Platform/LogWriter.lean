/-
# Writing log lines, and reading them back

`LogCodec::write` writes a line for each event, with an empty marker for each field that has no
value.  The reader finds its way back if the separators are made of characters that split, and the
texts of the fields are not (`log_round_trip`): then the events come back with the first value of
each mapped field.

Numbers are printed in decimal; how floating point numbers and times are printed is a parameter.
-/
import PionCore.Platform.LogReader

namespace PionCore.Platform

open PionCore.Lib PionCore.Common

/-- An integer as a stream prints it. -/
def decimal (z : ℤ) : Bytes :=
  if 0 ≤ z then numeral 10 z.toNat else 45 :: numeral 10 (-z).toNat

/-- How a codec prints what it does not print in decimal: the formats of times are those of a
facet. -/
structure LogPrinters (φ δ χ θ : Type*) where
  ofFloat : φ → Bytes
  ofDouble : δ → Bytes
  ofLongDouble : χ → Bytes
  ofDateTime : Bytes → θ → Bytes
  subOffset : θ → ℤ → θ

variable {φ δ χ θ : Type*} (print : LogPrinters φ δ χ θ)

namespace LogField

def encode (f : LogField) (text : Bytes) : Bytes := if f.logUrlencode then urlEncode text else text

/-- The string of a blob, which ends at a zero byte if it is encoded. -/
def blobText (f : LogField) (v : Bytes) : Bytes :=
  if f.logUrlencode then urlEncode (LogCodec.cString v) else v

/-- What `LogField::write` prints to its string stream; another kind of value throws. -/
def oss (f : LogField) (value : ParameterValue φ δ χ θ) : Option Bytes :=
  match f.logTerm.termType, value with
  | .null, _ | .object, _ => some []
  | .int8, .int32 v | .int16, .int32 v | .int32, .int32 v => some (decimal v.toInt)
  | .int64, .int64 v => some (decimal v.toInt)
  | .uint8, .uint32 v | .uint16, .uint32 v | .uint32, .uint32 v => some (numeral 10 v.toNat)
  | .uint64, .uint64 v => some (numeral 10 v.toNat)
  | .float, .float v => some (print.ofFloat v)
  | .double, .double v => some (print.ofDouble v)
  | .longDouble, .longDouble v => some (print.ofLongDouble v)
  | .shortString, .blob v | .string, .blob v | .longString, .blob v | .blob, .blob v
  | .zblob, .blob v => some (f.blobText v)
  | .char, .blob v => some ((f.blobText v).take f.logTerm.termSize)
  | .dateTime, .dateTime v | .date, .dateTime v | .time, .dateTime v =>
    some (f.encode (print.ofDateTime f.logTimeFacet
      (if f.logDoTimeOffset then print.subOffset v f.logTimeOffset else v)))
  | _, _ => none

/-- A delimiter, if there is one. -/
def delim (b : Byte) : Bytes := if b = 0 then [] else [b]

/-- The text with the escape character in front of every end delimiter. -/
def escape (f : LogField) (src : Bytes) : Bytes :=
  src.flatMap fun b => if b = f.logDelimEnd then [f.logEscapeChar, b] else [b]

def writeEmptyValue (f : LogField) : Bytes :=
  delim f.logDelimStart ++ f.logEmptyVal ++ delim f.logDelimEnd

def write (f : LogField) (value : ParameterValue φ δ χ θ) : Option Bytes :=
  (f.oss print value).map fun src =>
    delim f.logDelimStart ++ (if src = [] then f.logEmptyVal else f.escape src) ++
      delim f.logDelimEnd

end LogField

namespace LogCodec

/-- What is written for a field of an event. -/
def fieldText (f : LogField) (e : Event φ δ χ θ) : Option Bytes :=
  match e.getPointer f.logTerm.termRef with
  | none => some f.writeEmptyValue
  | some value => f.write print value

/-- The loop of `write` over the format. -/
def writeFields (c : LogCodec) (e : Event φ δ χ θ) : List LogField → Option Bytes
  | [] => some []
  | f :: fs => do
    let text ← fieldText print f e
    let texts ← writeFields c e fs
    some (text ++ (if fs = [] then [] else c.fieldJoin ++ texts))

/-- `writeELFHeaders`, with the time and the version of the library. -/
def elfHeaders (c : LogCodec) (date version : Bytes) : Bytes :=
  ascii "#Version: 1.0" ++ c.eventJoin ++ (ascii "#Date: " ++ date ++ c.eventJoin) ++
    (ascii "#Software: Pion v" ++ version ++ c.eventJoin) ++
    (fieldsElfHeader ++ (c.fields.flatMap fun f => 32 :: f.logField) ++ c.eventJoin)

/-- `write`; the headers are written once. -/
def write (date version : Bytes) (c : LogCodec) (e : Event φ δ χ θ) :
    Option (LogCodec × Bytes) :=
  (writeFields print c e c.fields).map fun texts =>
    if c.handleElfHeaders && ! c.wroteElfHeaders then
      ({ c with wroteElfHeaders := true }, elfHeaders c date version ++ texts ++ c.eventJoin)
    else (c, texts ++ c.eventJoin)

/-- Write some events. -/
def writeAll (date version : Bytes) (c : LogCodec) : List (Event φ δ χ θ) → Option Bytes
  | [] => some []
  | e :: es => do
    let (c, line) ← write print date version c e
    let lines ← writeAll date version c es
    some (line ++ lines)

/-! ### The texts of the fields -/

variable {c : LogCodec} {f : LogField} {src after : Bytes}

/-- A text without delimiters has no character that splits. -/
def PlainText (c : LogCodec) (f : LogField) (src : Bytes) : Prop :=
  f.logDelimStart = 0 ∧ f.logDelimEnd = 0 ∧ ∀ b ∈ src, c.isVoid b = false

/-- A text with delimiters does not end with the escape character, and the start delimiter does not
split; if the end delimiter comes in the text, it does not escape itself. -/
structure DelimitedText (c : LogCodec) (f : LogField) (src : Bytes) : Prop where
  start : f.logDelimStart ≠ 0 ∧ f.logDelimStart < 128
  stop : f.logDelimEnd ≠ 0 ∧ f.logDelimEnd < 128
  event : c.inEventSplit f.logDelimStart = false
  field : c.consumeDelims = true → c.inFieldSplit f.logDelimStart = false
  last : src.getLast? ≠ some f.logEscapeChar
  escaped : f.logDelimEnd ∈ src → f.logEscapeChar ≠ f.logDelimEnd

/-- A text that is read back. -/
structure Readable (c : LogCodec) (f : LogField) (src : Bytes) : Prop where
  noZero : ∀ b ∈ src, b ≠ 0
  length : src.length ≤ readBufferSize
  contents : PlainText c f src ∨ DelimitedText c f src

lemma cString_eq (h : ∀ b ∈ src, b ≠ 0) : cString src = src := by
  refine List.takeWhile_eq_self_iff.2 fun b hb => ?_
  simpa using h b hb

lemma escape_eq (h : f.logDelimEnd ∉ src) : f.escape src = src := by
  rw [LogField.escape]
  induction src with
  | nil => rfl
  | cons b src ih =>
    rw [List.mem_cons, not_or] at h
    rw [List.flatMap_cons, if_neg (Ne.symm h.1), ih h.2]
    rfl

lemma readText_plain (escapeChar : Byte) {buf : Bytes} (hsrc : ∀ b ∈ src, c.isVoid b = false)
    (hafter : after.head?.all c.isVoid = true) (hlen : buf.length + src.length ≤ readBufferSize) :
    readText c 0 escapeChar buf (src ++ after) = (buf ++ src, after) := by
  have hdelim : ∀ b, ((0 : Byte) != 0 && isDelim 0 (some b)) = false := fun _ => rfl
  have hzero : ((0 : Byte) == 0) = true := rfl
  induction src generalizing buf with
  | nil =>
    rw [List.nil_append, List.append_nil]
    cases after with
    | nil => rfl
    | cons b s =>
      have hb : c.isVoid b = true := hafter
      rw [readText, hdelim, if_neg Bool.false_ne_true, hzero, hb, Bool.true_and, if_pos rfl]
  | cons b src ih =>
    rw [List.length_cons] at hlen
    rw [List.cons_append, readText, hdelim, if_neg Bool.false_ne_true, hzero,
      hsrc b List.mem_cons_self, Bool.true_and, if_neg Bool.false_ne_true, if_pos (by omega)]
    rw [ih fun b' hb' => hsrc b' (List.mem_cons_of_mem b hb')]
    · rw [List.append_assoc, List.singleton_append]
    · rw [List.length_append, List.length_singleton]
      omega

lemma isDelim_ne {delim b : Byte} (h : b ≠ delim) :
    (delim != 0 && isDelim delim (some b)) = false := by
  rw [isDelim, beq_eq_false_iff_ne.2 h, Bool.false_and, Bool.and_false]

lemma isDelim_self {delim : Byte} (hne : delim ≠ 0) (hascii : delim < 128) :
    (delim != 0 && isDelim delim (some delim)) = true := by
  simp [isDelim, hne, hascii]

/-- An escaped text is read up to its end delimiter. -/
lemma readText_escape (hstop : f.logDelimEnd ≠ 0 ∧ f.logDelimEnd < 128) {buf : Bytes}
    (hlast : (buf ++ src).getLast? ≠ some f.logEscapeChar)
    (hescaped : f.logDelimEnd ∈ src → f.logEscapeChar ≠ f.logDelimEnd)
    (hlen : buf.length + src.length ≤ readBufferSize) :
    readText c f.logDelimEnd f.logEscapeChar buf (f.escape src ++ f.logDelimEnd :: after) =
      (buf ++ src, after) := by
  have hdelim := isDelim_self hstop.1 hstop.2
  have hzero : (f.logDelimEnd == 0) = false := beq_eq_false_iff_ne.2 hstop.1
  induction src generalizing buf with
  | nil =>
    rw [List.append_nil] at hlast ⊢
    show readText c _ _ buf (f.logDelimEnd :: after) = _
    rw [readText, hdelim, if_pos rfl, if_neg hlast]
  | cons b src ih =>
    rw [List.length_cons] at hlen
    have hnext : readText c f.logDelimEnd f.logEscapeChar (buf ++ [b])
        (f.escape src ++ f.logDelimEnd :: after) = (buf ++ b :: src, after) := by
      rw [ih (by rwa [List.append_assoc]) fun h => hescaped (List.mem_cons_of_mem b h)]
      · rw [List.append_assoc, List.singleton_append]
      · rw [List.length_append, List.length_singleton]
        omega
    by_cases hb : b = f.logDelimEnd
    · -- the escape character is read first, and overwritten
      subst hb
      have hne : f.logEscapeChar ≠ f.logDelimEnd := hescaped List.mem_cons_self
      have hsplit : f.escape (f.logDelimEnd :: src) ++ f.logDelimEnd :: after =
          f.logEscapeChar :: f.logDelimEnd :: (f.escape src ++ f.logDelimEnd :: after) := by
        rw [LogField.escape, List.flatMap_cons, if_pos rfl]
        rfl
      rw [hsplit, readText, isDelim_ne hne, if_neg Bool.false_ne_true, hzero, Bool.false_and,
        if_neg Bool.false_ne_true, if_pos (by omega), readText, hdelim, if_pos rfl,
        List.getLast?_concat, if_pos rfl, List.dropLast_concat]
      exact hnext
    · have hsplit : f.escape (b :: src) ++ f.logDelimEnd :: after =
          b :: (f.escape src ++ f.logDelimEnd :: after) := by
        rw [LogField.escape, List.flatMap_cons, if_neg hb]
        rfl
      rw [hsplit, readText, isDelim_ne hb, if_neg Bool.false_ne_true, hzero, Bool.false_and,
        if_neg Bool.false_ne_true, if_pos (by omega)]
      exact hnext

/-- What the reader makes of the text of a field. -/
structure ReadsAs (c : LogCodec) (f : LogField) (text src : Bytes) : Prop where
  reads : ∀ after, after ≠ [] → after.head?.all c.isVoid = true → ∃ delimEnd s,
    startField f (text ++ after) = some (delimEnd, s) ∧
      readContents c delimEnd f.logEscapeChar s = (src, after)
  head : ∀ b ∈ text.head?, c.inEventSplit b = false ∧
    (c.consumeDelims = true → c.inFieldSplit b = false)

lemma Readable.readsAs (h : Readable c f src) :
    ReadsAs c f (LogField.delim f.logDelimStart ++ f.escape src ++ LogField.delim f.logDelimEnd)
      src := by
  rcases h.contents with ⟨hstart, hstop, hsrc⟩ | hdelim
  · have htext : LogField.delim f.logDelimStart ++ f.escape src ++ LogField.delim f.logDelimEnd =
        src := by
      rw [hstart, hstop, escape_eq fun hmem => h.noZero _ hmem hstop]
      simp [LogField.delim]
    rw [htext]
    constructor
    · intro after hne hafter
      refine ⟨0, src ++ after, by rw [startField, if_pos hstart, hstop], ?_⟩
      have hread : readText c 0 f.logEscapeChar [] (src ++ after) = ([] ++ src, after) :=
        readText_plain f.logEscapeChar hsrc hafter (by simpa using h.length)
      cases hlist : src ++ after with
      | nil => exact absurd (List.append_eq_nil_iff.1 hlist).2 hne
      | cons b s =>
        rw [hlist] at hread
        exact hread
    · intro b hb
      have hvoid := hsrc b (List.mem_of_mem_head? hb)
      rw [isVoid, Bool.or_eq_false_iff] at hvoid
      exact ⟨hvoid.2, fun _ => hvoid.1⟩
  · have htext : LogField.delim f.logDelimStart ++ f.escape src ++ LogField.delim f.logDelimEnd =
        f.logDelimStart :: (f.escape src ++ [f.logDelimEnd]) := by
      simp [LogField.delim, hdelim.start.1, hdelim.stop.1]
    rw [htext]
    constructor
    · intro after _ _
      refine ⟨f.logDelimEnd, f.escape src ++ f.logDelimEnd :: after, ?_, ?_⟩
      · have hhead : isDelim f.logDelimStart (some f.logDelimStart) = true := by
          simp [isDelim, hdelim.start.2]
        rw [startField, if_neg hdelim.start.1, List.cons_append, List.head?_cons, hhead, if_pos rfl,
          List.tail_cons, List.append_assoc]
        rfl
      · have hread : readText c f.logDelimEnd f.logEscapeChar []
            (f.escape src ++ f.logDelimEnd :: after) = ([] ++ src, after) :=
          readText_escape hdelim.stop (by simpa using hdelim.last) hdelim.escaped
            (by simpa using h.length)
        cases hlist : f.escape src ++ f.logDelimEnd :: after with
        | nil => exact absurd (List.append_eq_nil_iff.1 hlist).2 (List.cons_ne_nil _ _)
        | cons b s =>
          rw [hlist] at hread
          exact hread
    · intro b hb
      obtain rfl : f.logDelimStart = b := Option.some.inj hb
      exact ⟨hdelim.event, hdelim.field⟩

/-! ### The values of the fields -/

/-- What the codec relies on: a number that is printed is converted back. -/
structure PrintsBack (conv : LogConversions φ δ χ θ) : Prop where
  toInt32 : ∀ v : Int32, conv.toInt32 (decimal v.toInt) = some v
  toUInt32 : ∀ v : UInt32, conv.toUInt32 (numeral 10 v.toNat) = some v
  toInt64 : ∀ v : Int64, conv.toInt64 (decimal v.toInt) = some v
  toUInt64 : ∀ v : UInt64, conv.toUInt64 (numeral 10 v.toNat) = some v

variable (conv : LogConversions φ δ χ θ)

/-- A value of an integer or string type that is the one of the field's term.  A string has no zero
bytes and is valid UTF-8, and fits into a term of a fixed size. -/
def IntegerOrString (f : LogField) (value : ParameterValue φ δ χ θ) : Prop :=
  match f.logTerm.termType, value with
  | .int8, .int32 _ | .int16, .int32 _ | .int32, .int32 _ | .int64, .int64 _ => True
  | .uint8, .uint32 _ | .uint16, .uint32 _ | .uint32, .uint32 _ | .uint64, .uint64 _ => True
  | .shortString, .blob v | .string, .blob v | .longString, .blob v =>
    (∀ b ∈ v, b ≠ 0) ∧ conv.makeUTF8Blob v = some v
  | .blob, .blob v | .zblob, .blob v => ∀ b ∈ v, b ≠ 0
  | .char, .blob v =>
    (∀ b ∈ v, b ≠ 0) ∧ conv.makeUTF8Blob v = some v ∧ (f.blobText v).length ≤ f.logTerm.termSize
  | _, _ => False

variable {conv print}

/-- The text of a string is decoded to the string. -/
lemma decode_blobText (f : LogField) {v : Bytes} (h : ∀ b ∈ v, b ≠ 0) :
    (if f.logUrlencode then urlDecode (f.blobText v) else f.blobText v) = v := by
  rw [LogField.blobText, cString_eq h]
  split_ifs
  · exact urlDecode_urlEncode v
  · rfl

lemma length_le_blobText (f : LogField) {v : Bytes} (h : ∀ b ∈ v, b ≠ 0) :
    v.length ≤ (f.blobText v).length := by
  rw [LogField.blobText, cString_eq h]
  split_ifs
  · exact length_le_urlEncode v
  · exact Nat.le_refl _

/-- The printed value is read. -/
lemma read_oss (hconv : PrintsBack conv) {value : ParameterValue φ δ χ θ}
    (hvalue : IntegerOrString conv f value) (hsrc : f.oss print value = some src)
    (e : Event φ δ χ θ) : f.read conv src e = some (e.insert f.logTerm.termRef value) := by
  cases htype : f.logTerm.termType <;> cases value <;>
    simp only [LogField.oss, IntegerOrString, LogField.read, htype] at hsrc hvalue ⊢ <;>
    obtain rfl := Option.some.inj hsrc
  case int8.int32 v | int16.int32 v | int32.int32 v =>
    rw [hconv.toInt32]
    rfl
  case uint8.uint32 v | uint16.uint32 v | uint32.uint32 v =>
    rw [hconv.toUInt32]
    rfl
  case int64.int64 v =>
    rw [hconv.toInt64]
    rfl
  case uint64.uint64 v =>
    rw [hconv.toUInt64]
    rfl
  case shortString.blob v | string.blob v | longString.blob v =>
    rw [decode_blobText f hvalue.1, Event.setString, hvalue.2]
    rfl
  case char.blob v =>
    obtain ⟨hzero, hutf8, hsize⟩ := hvalue
    rw [List.take_of_length_le hsize, decode_blobText f hzero,
      List.take_of_length_le ((length_le_blobText f hzero).trans hsize), Event.setString, hutf8]
    rfl
  case blob.blob v | zblob.blob v =>
    rw [decode_blobText f hvalue]
    rfl

/-! ### A line -/

variable (conv print)

/-- What is written for a field is read back: an empty marker of a field without a value, or a text
that is not the empty marker. -/
def FieldReadable (c : LogCodec) (f : LogField) (e : Event φ δ χ θ) : Prop :=
  match e.getPointer f.logTerm.termRef with
  | none =>
    Readable c f f.logEmptyVal ∧ f.logDelimEnd ∉ f.logEmptyVal ∧
      (f.logDelimStart = 0 → f.logEmptyVal = [] → c.consumeDelims = false)
  | some value => IntegerOrString conv f value ∧ ∃ src, f.oss print value = some src ∧
      src ≠ [] ∧ src ≠ f.logEmptyVal ∧ Readable c f src

/-- The string between fields is made of field delimiters that do not split events; if they are
not consumed together, there is one. -/
structure Joins (c : LogCodec) : Prop where
  ne_nil : c.fieldJoin ≠ []
  split : ∀ b ∈ c.fieldJoin, c.inFieldSplit b = true ∧ c.inEventSplit b = false
  single : c.consumeDelims = false → c.fieldJoin.length = 1

/-- The string behind an event begins with a character that splits events, and has only such that
split. -/
def EndsEvents (c : LogCodec) : Prop :=
  ∃ b j, c.eventJoin = b :: j ∧ c.inEventSplit b = true ∧ ∀ b' ∈ j, c.isVoid b' = true

/-- The first values of the mapped fields. -/
def firstValues (e : Event φ δ χ θ) (fs : List LogField) : List (ℕ × ParameterValue φ δ χ θ) :=
  fs.filterMap fun f => (e.getPointer f.logTerm.termRef).map (f.logTerm.termRef, ·)

variable {conv print} {e : Event φ δ χ θ}

/-- A field is written, and read back into an event. -/
lemma FieldReadable.exists_text (hconv : PrintsBack conv) (h : FieldReadable print conv c f e) :
    ∃ text src, fieldText print f e = some text ∧ ReadsAs c f text src ∧
      (text = [] → c.consumeDelims = false ∧ firstValues e [f] = []) ∧ ∀ e₀ : Event φ δ χ θ,
        setText conv f src e₀ = some (SortedMultimap.insertAll e₀ (firstValues e [f])) := by
  rw [FieldReadable] at h
  rw [fieldText]
  cases hvalue : e.getPointer f.logTerm.termRef with
  | none =>
    have hfirst : firstValues e [f] = [] := by simp [firstValues, hvalue]
    rw [hvalue] at h
    rw [hfirst]
    obtain ⟨hreadable, hnot, hempty⟩ := h
    have hreads := hreadable.readsAs
    rw [escape_eq hnot] at hreads
    refine ⟨_, f.logEmptyVal, rfl, hreads, fun hnil => ?_, fun e₀ => ?_⟩
    · simp only [LogField.writeEmptyValue, List.append_eq_nil_iff] at hnil
      refine ⟨hempty ?_ hnil.1.2, rfl⟩
      by_contra hstart
      rw [LogField.delim, if_neg hstart] at hnil
      cases hnil.1.1
    · rw [setText, cString_eq hreadable.noZero, if_pos (Or.inr rfl)]
      rfl
  | some value =>
    have hfirst : firstValues e [f] = [(f.logTerm.termRef, value)] := by
      simp [firstValues, hvalue]
    rw [hvalue] at h
    obtain ⟨htype, src, hsrc, hne, hmarker, hreadable⟩ := h
    rw [hfirst]
    have hwrite : f.write print value = some
        (LogField.delim f.logDelimStart ++ f.escape src ++ LogField.delim f.logDelimEnd) := by
      simp only [LogField.write, hsrc, Option.map_some, if_neg hne]
    refine ⟨_, src, hwrite, hreadable.readsAs, fun hnil => ?_, fun e₀ => ?_⟩
    · rw [List.append_eq_nil_iff, List.append_eq_nil_iff] at hnil
      cases src with
      | nil => exact absurd rfl hne
      | cons b src =>
        have hflat := hnil.1.2
        rw [LogField.escape, List.flatMap_cons] at hflat
        split_ifs at hflat <;> cases hflat
    · rw [setText, cString_eq hreadable.noZero, if_neg (not_or.2 ⟨hne, hmarker⟩)]
      exact read_oss hconv htype hsrc e₀

lemma firstValues_cons (fs : List LogField) :
    firstValues e (f :: fs) = firstValues e [f] ++ firstValues e fs := by
  rw [firstValues, firstValues, firstValues, ← List.filterMap_append]
  rfl

lemma skipSplit_join (hjoins : Joins c) {s : Bytes}
    (hs : c.consumeDelims = true → ∀ b ∈ s.head?, c.inFieldSplit b = false) :
    c.skipSplit (c.fieldJoin ++ s) = s := by
  rw [skipSplit]
  split_ifs with hconsume
  · cases hjoin : c.fieldJoin with
    | nil => exact absurd hjoin hjoins.ne_nil
    | cons b j =>
      show (j ++ s).dropWhile c.inFieldSplit = s
      rw [List.dropWhile_append_of_pos fun b' hb' =>
        (hjoins.split b' (hjoin ▸ List.mem_cons_of_mem b hb')).1]
      cases s with
      | nil => rfl
      | cons b' s => rw [List.dropWhile_cons, hs hconsume b' rfl, if_neg Bool.false_ne_true]
  · obtain ⟨b, hb⟩ := List.length_eq_one_iff.1 (hjoins.single (by simpa using hconsume))
    rw [hb]
    rfl

/-- The loop over the fields reads a text, and goes on behind the delimiters after it. -/
lemma ReadsAs.readFields {text src : Bytes} (h : ReadsAs c f text src) {e₀ e₁ : Event φ δ χ θ}
    (hset : setText conv f src e₀ = some e₁) (fs : List LogField) {b : Byte} {s : Bytes}
    (hvoid : c.isVoid b = true) (hstop : ¬ EndsRecord c (text ++ b :: s)) :
    readFields conv c (f :: fs) e₀ (text ++ b :: s) =
      if c.inEventSplit b || ! c.inFieldSplit b then (some e₁, b :: s)
      else readFields conv c fs e₁ (c.skipSplit (b :: s)) := by
  obtain ⟨delimEnd, s', hstart, hcontents⟩ := h.reads (b :: s) (List.cons_ne_nil b s) hvoid
  rw [EndsRecord] at hstop
  rw [LogCodec.readFields, if_neg hstop, hstart]
  dsimp only
  rw [hcontents, hset]
  rfl

/-- A text that is not empty does not look like the end of the record. -/
lemma ReadsAs.not_endsRecord {text src : Bytes} (h : ReadsAs c f text src) (hne : text ≠ [])
    (s : Bytes) : ¬ EndsRecord c (text ++ s) := by
  intro hends
  cases htext : text with
  | nil => exact hne htext
  | cons b t =>
    rw [htext] at hends
    have hfalse := (h.head b (by rw [htext]; rfl)).1
    exact Bool.false_ne_true (hfalse.symm.trans hends)

/-- The fields are written, and the loop over the fields reads them back and stops in front of the
end of the event. -/
lemma readFields_written (hconv : PrintsBack conv) {fs : List LogField}
    (hfs : ∀ f ∈ fs, FieldReadable print conv c f e) (hjoins : 1 < fs.length → Joins c) :
    ∃ texts, writeFields print c e fs = some texts ∧
      (c.consumeDelims = true → fs ≠ [] → ∃ b t, texts = b :: t ∧ c.inFieldSplit b = false) ∧
      ∀ b after, c.inEventSplit b = true → ∀ e₀ : Event φ δ χ θ,
        readFields conv c fs e₀ (texts ++ b :: after) =
          (some (SortedMultimap.insertAll e₀ (firstValues e fs)), b :: after) := by
  -- in front of the next field, all delimiters are skipped only if that begins with none
  induction fs with
  | nil => exact ⟨[], rfl, fun _ h => absurd rfl h, fun b after _ e₀ => rfl⟩
  | cons f fs ih =>
    obtain ⟨text, src, htext, hreads, hempty, hset⟩ :=
      (hfs f List.mem_cons_self).exists_text hconv
    obtain ⟨texts, htexts, hhead, hread⟩ := ih (fun g hg => hfs g (List.mem_cons_of_mem f hg))
      fun hlen => hjoins (by rw [List.length_cons]; omega)
    have hwrite : writeFields print c e (f :: fs) =
        some (text ++ (if fs = [] then [] else c.fieldJoin ++ texts)) := by
      rw [writeFields, htext, htexts]
      rfl
    refine ⟨_, hwrite, fun hconsume _ => ?_, fun b after hb e₀ => ?_⟩
    · cases htext' : text with
      | nil =>
        rw [(hempty htext').1] at hconsume
        cases hconsume
      | cons b' t =>
        exact ⟨b', _, rfl, (hreads.head b' (by rw [htext']; rfl)).2 hconsume⟩
    · split_ifs with hnil
      · subst hnil
        rw [List.append_nil]
        by_cases hne : text = []
        · -- the loop stops in front of a last field without a text
          have hends : (b :: after).head?.all c.inEventSplit = true := hb
          rw [hne, List.nil_append, readFields, if_pos hends, (hempty hne).2]
          rfl
        · have hvoid : c.isVoid b = true := by rw [isVoid, hb, Bool.or_true]
          rw [hreads.readFields (hset e₀) [] hvoid (hreads.not_endsRecord hne _), hb, Bool.true_or,
            if_pos rfl]
      · have hjoin : Joins c := hjoins (by
          have := List.length_pos_of_ne_nil hnil
          rw [List.length_cons]
          omega)
        cases hlist : c.fieldJoin with
        | nil => exact absurd hlist hjoin.ne_nil
        | cons b' j =>
          obtain ⟨hfieldb, heventb⟩ := hjoin.split b' (hlist ▸ List.mem_cons_self)
          have hvoid : c.isVoid b' = true := by rw [isVoid, hfieldb, Bool.true_or]
          have hstop : ¬ EndsRecord c (text ++ b' :: (j ++ texts ++ b :: after)) := by
            by_cases hne : text = []
            · rw [hne]
              exact fun hends => Bool.false_ne_true (heventb.symm.trans hends)
            · exact hreads.not_endsRecord hne _
          have hassoc : text ++ (b' :: j ++ texts) ++ b :: after =
              text ++ b' :: (j ++ texts ++ b :: after) := by
            simp
          have hskip : c.skipSplit (b' :: (j ++ texts ++ b :: after)) = texts ++ b :: after := by
            have hnext : c.consumeDelims = true →
                ∀ d ∈ (texts ++ b :: after).head?, c.inFieldSplit d = false := by
              intro hconsume d hd
              obtain ⟨b₀, t₀, rfl, hb₀⟩ := hhead hconsume hnil
              obtain rfl : b₀ = d := Option.some.inj hd
              exact hb₀
            have hskip := skipSplit_join hjoin hnext
            rw [hlist] at hskip
            simpa using hskip
          rw [hassoc, hreads.readFields (hset e₀) fs hvoid hstop, heventb, hfieldb, Bool.not_true,
            Bool.or_false, if_neg Bool.false_ne_true, hskip, hread b after hb,
            firstValues_cons (f := f) fs]
          simp only [SortedMultimap.insertAll, List.foldl_append]

/-! ### Lines -/

variable (conv print)

/-- The fields of an event are read back, and its line does not begin like a void or a comment. -/
structure EventReadable (c : LogCodec) (e : Event φ δ χ θ) : Prop where
  fields : ∀ f ∈ c.fields, FieldReadable print conv c f e
  begins : ∀ texts, writeFields print c e c.fields = some texts →
    ∃ b t, texts = b :: t ∧ Begins c b

/-- The event with the first values of the mapped fields. -/
def restrict (c : LogCodec) (e : Event φ δ χ θ) : Event φ δ χ θ :=
  SortedMultimap.insertAll [] (firstValues e c.fields)

/-- The lines of some events. -/
def lines (c : LogCodec) : List (Event φ δ χ θ) → Option Bytes
  | [] => some []
  | e :: es => do
    let texts ← writeFields print c e c.fields
    let rest ← lines c es
    some (texts ++ c.eventJoin ++ rest)

variable {conv print} {stale : Bytes → Bytes}

lemma EndsEvents.endsRecord (h : EndsEvents c) (s : Bytes) : EndsRecord c (c.eventJoin ++ s) := by
  obtain ⟨b, j, hjoin, hb, -⟩ := h
  rw [hjoin]
  exact hb

lemma EndsEvents.consumeVoids (h : EndsEvents c) (s : Bytes) :
    consumeVoids stale c none (c.eventJoin ++ s) = consumeVoids stale c none s := by
  obtain ⟨b, j, hjoin, hb, hj⟩ := h
  rw [hjoin]
  refine consumeVoids_void (List.forall_mem_cons.2 ⟨?_, hj⟩) s
  rw [isVoid, hb, Bool.or_true]

variable (stale) in
lemma read_line (hconv : PrintsBack conv) (hjoins : 1 < c.fields.length → Joins c)
    (hends : EndsEvents c) (he : EventReadable print conv c e) :
    ∃ texts, writeFields print c e c.fields = some texts ∧ ∀ s,
      read conv stale c (texts ++ c.eventJoin ++ s) =
        (c, (c.eventJoin ++ s).dropWhile c.inEventSplit, .event (restrict c e)) := by
  obtain ⟨texts, htexts, -, hread⟩ := readFields_written hconv he.fields hjoins
  obtain ⟨b, t, rfl, hb⟩ := he.begins texts htexts
  refine ⟨_, htexts, fun s => ?_⟩
  have hfields : readFields conv c c.fields [] (b :: (t ++ (c.eventJoin ++ s))) =
      (some (restrict c e), c.eventJoin ++ s) := by
    obtain ⟨b', j, hjoin, hb', -⟩ := hends
    rw [hjoin]
    exact hread b' (j ++ s) hb' []
  have hskip := dropWhile_eq_rest (hends.endsRecord s)
    (List.forall_mem_nil fun b => c.inEventSplit b = false)
  rw [List.nil_append] at hskip
  rw [List.append_assoc, List.cons_append, read, consumeVoids_begins hb]
  dsimp only
  rw [hfields]
  dsimp only
  rw [skipRecord, hskip]

variable (stale) in
/-- The lines are read, and then the end of the stream is found. -/
lemma reads_lines (hconv : PrintsBack conv) (hjoins : 1 < c.fields.length → Joins c)
    (hends : EndsEvents c) {es : List (Event φ δ χ θ)}
    (hes : ∀ e ∈ es, EventReadable print conv c e) :
    ∃ out, lines print c es = some out ∧
      reads conv stale (es.length + 1) c out =
        es.map (fun e => .event (restrict c e)) ++ [.eof] := by
  induction es with
  | nil => exact ⟨[], rfl, rfl⟩
  | cons e es ih =>
    obtain ⟨rest, hrest, hreads⟩ := ih fun e' he' => hes e' (List.mem_cons_of_mem e he')
    obtain ⟨texts, htexts, hread⟩ := read_line stale hconv hjoins hends (hes e List.mem_cons_self)
    refine ⟨texts ++ c.eventJoin ++ rest, by rw [lines, htexts, hrest]; rfl, ?_⟩
    rw [List.length_cons, reads, hread]
    dsimp only
    rw [← reads_congr (consumeVoids_skipEvents _), reads_congr (hends.consumeVoids rest), hreads]
    rfl

/-! ### The headers -/

/-- The headers are read as comments: the comment character begins one, and what is written behind
it does not end it.  The last one has the names of the fields, and they are cut at spaces. -/
structure HeadersReadable (c : LogCodec) (date version : Bytes) : Prop where
  hash : c.isVoid 35 = false ∧ c.commentChars.contains 35 = true
  texts : ∀ b ∈ ascii "#Version: 1.0" ++ (ascii "#Date: " ++ date) ++
    (ascii "#Software: Pion v" ++ version) ++ fieldsElfHeader, c.inEventSplit b = false
  names : ∀ f ∈ c.fields, ∀ b ∈ f.logField, b ≠ 0 ∧ b ≠ 32 ∧ c.inEventSplit b = false
  length : (fieldsElfHeader ++ c.fields.flatMap fun f => 32 :: f.logField).length ≤ readBufferSize

lemma consumeVoids_header (h35 : c.isVoid 35 = false ∧ c.commentChars.contains 35 = true)
    (hends : EndsEvents c) {text s : Bytes} (htext : ∀ b ∈ text, c.inEventSplit b = false)
    (hend : endComment stale c (35 :: text) (c.eventJoin ++ s) = (c, none)) :
    consumeVoids stale c none (35 :: text ++ c.eventJoin ++ s) = consumeVoids stale c none s := by
  rw [List.append_assoc, List.cons_append, LogCodec.consumeVoids, h35.1,
    if_neg Bool.false_ne_true, if_pos h35.2, consumeVoids_comment htext, List.singleton_append,
    consumeVoids_endComment (hends.endsRecord s) hend, hends.consumeVoids]

/-- A comment that does not begin like the directive. -/
lemma isDirective_of_ne {b : Byte} (hb : b ≠ 70) (text : Bytes) :
    isDirective (35 :: b :: text) = false := by
  rw [isDirective, beq_eq_false_iff_ne]
  intro h
  have hlist : fieldsElfHeader = 35 :: 70 :: ascii "ields:" := by decide
  have htake : (35 :: b :: text).take fieldsElfHeader.length = 35 :: b :: text.take 6 := rfl
  rw [htake, hlist, cString, List.takeWhile_cons, if_pos (by decide), List.takeWhile_cons] at h
  split_ifs at h
  · exact hb (List.cons.inj (List.cons.inj h).2).1
  · cases (List.cons.inj h).2

/-- The names are cut out of the directive. -/
lemma elfNames_written {eventSplit name : Bytes} {names : List Bytes}
    (hspace : eventSplit.contains 32 = false)
    (hnames : ∀ n ∈ name :: names, n ≠ [] ∧
      ∀ b ∈ n, b ≠ 0 ∧ b ≠ 32 ∧ eventSplit.contains b = false)
    {fuel : ℕ} (hfuel : names.length < fuel) :
    elfNames eventSplit fuel (name ++ names.flatMap fun n => 32 :: n) = name :: names := by
  induction fuel generalizing name names with
  | zero => omega
  | succ fuel ih =>
    obtain ⟨hne, hchars⟩ := hnames name List.mem_cons_self
    obtain ⟨b, t, rfl⟩ := List.exists_cons_of_ne_nil hne
    have hhead := hchars b List.mem_cons_self
    have hb0 : (b == 0) = false := beq_eq_false_iff_ne.2 hhead.1
    have hb32 : (b == 32) = false := beq_eq_false_iff_ne.2 hhead.2.1
    have hin : ∀ b' ∈ b :: t,
        (! (b' == 0 || eventSplit.contains b') && b' != 32) = true := by
      intro b' hb'
      obtain ⟨h0, h32, hsplit⟩ := hchars b' hb'
      rw [beq_eq_false_iff_ne.2 h0, hsplit]
      simpa using h32
    have hdrop : ∀ r : Bytes, (b :: t ++ r).dropWhile (· == 32) = b :: t ++ r := fun r => by
      rw [List.cons_append, List.dropWhile_cons, hb32, if_neg Bool.false_ne_true]
    have hends : (b :: t ++ names.flatMap fun n => 32 :: n).head?.all
        (fun c => c == 0 || eventSplit.contains c) = false := by
      show (b == 0 || eventSplit.contains b) = false
      rw [hb0, hhead.2.2, Bool.or_false]
    rw [elfNames, hends, if_neg Bool.false_ne_true, hdrop, List.takeWhile_append_of_pos hin,
      List.dropWhile_append_of_pos hin]
    cases names with
    | nil => simp
    | cons n names =>
      have hstop : (! ((32 : Byte) == 0 || eventSplit.contains 32) && (32 : Byte) != 32) =
          false := by
        rw [hspace]
        rfl
      have hnext : ((n :: names).flatMap fun n => 32 :: n) =
          32 :: (n ++ names.flatMap fun n => 32 :: n) := rfl
      rw [hnext, List.takeWhile_cons, List.dropWhile_cons, hstop, if_neg Bool.false_ne_true,
        if_neg Bool.false_ne_true, List.append_nil]
      dsimp only
      rw [List.length_cons] at hfuel
      have hgo : ¬ (((32 : Byte) == 0 || eventSplit.contains 32) = true) := by
        rw [hspace]
        decide
      rw [if_neg hgo, ih (fun n' hn' => hnames n' (List.mem_cons_of_mem _ hn'))
        (by omega)]

lemma lookupFields_names (hc : Wired c) {is : List ℕ} (his : ∀ i ∈ is, i < c.fieldMap.length) :
    c.lookupFields (is.filterMap fun i => c.names[i]?) = (is, none) := by
  induction is with
  | nil => rfl
  | cons i is ih =>
    have hi : i < c.fieldMap.length := his i List.mem_cons_self
    have hget : c.names[i]? = some c.fieldMap[i].1 := by
      rw [names, List.getElem?_map, List.getElem?_eq_getElem hi]
      rfl
    have hfind : (c.fieldMap.findIdx? fun e => e.1 == c.fieldMap[i].1) = some i := by
      rw [List.findIdx?_eq_some_iff_getElem]
      refine ⟨hi, by simp, fun j hj => ?_⟩
      have hne : c.fieldMap[j].1 ≠ c.fieldMap[i].1 := by
        intro heq
        have hinj := List.inj_on_of_nodup_map hc.names (List.getElem_mem (by omega))
          (List.getElem_mem hi) heq
        have hnodup : c.fieldMap.Nodup := List.Nodup.of_map _ hc.names
        exact absurd ((hnodup.getElem_inj_iff).1 hinj) (by omega)
      simpa using hne
    rw [List.filterMap_cons_some hget, lookupFields, hfind]
    dsimp only
    rw [ih fun j hj => his j (List.mem_cons_of_mem i hj)]

/-- The directive that is written does not change the format. -/
lemma changeELFFormat_written {v : Vocabulary} {fs : List LogField} (hc : Configured v c fs)
    (hspace : c.inEventSplit 32 = false)
    (hnames : ∀ f ∈ c.fields, ∀ b ∈ f.logField, b ≠ 0 ∧ b ≠ 32 ∧ c.inEventSplit b = false)
    {fmt : Bytes} (hfmt : (c.fields.flatMap fun f => 32 :: f.logField) = 32 :: fmt) :
    c.changeELFFormat fmt = (c, none) := by
  have hfields : c.fields.map LogField.logField = c.names := by
    rw [hc.fields_eq, List.map_map]
    exact List.map_congr_left fun e he => (hc.wired.key e he).symm
  have hnamed : ∀ n ∈ c.names, n ≠ [] ∧
      ∀ b ∈ n, b ≠ 0 ∧ b ≠ 32 ∧ c.eventSplit.contains b = false := by
    intro n hn
    rw [← hfields] at hn
    obtain ⟨f, hf, rfl⟩ := List.mem_map.1 hn
    refine ⟨?_, hnames f hf⟩
    have hmem := hc.wired.mem_of_mem_fields hf
    rw [hc.fieldMap] at hmem
    obtain ⟨g, hg, heq⟩ := List.mem_map.1 hmem
    have hname : g.logField = f.logField := congrArg Prod.fst heq
    exact hname ▸ hc.named g hg
  have helf : elfNames c.eventSplit (fmt.length + 1) fmt = c.names := by
    have hjoined : (c.names.flatMap fun n => 32 :: n) = 32 :: fmt := by
      rw [← hfields, List.flatMap_map]
      exact hfmt
    cases hlist : c.names with
    | nil =>
      rw [hlist] at hjoined
      cases hjoined
    | cons n names =>
      rw [hlist] at hjoined hnamed
      obtain rfl : n ++ (names.flatMap fun n => 32 :: n) = fmt := (List.cons.inj hjoined).2
      refine elfNames_written hspace hnamed ?_
      rw [List.length_append, List.length_flatMap]
      have hle := List.length_le_sum_of_one_le (names.map fun n => (32 :: n).length) (by simp)
      rw [List.length_map] at hle
      omega
  have hlookup : c.lookupFields c.names = (c.format, none) := by
    have hnames : (c.format.filterMap fun i => c.names[i]?) = c.names := by
      rw [hc.format]
      simpa [names] using filterMap_range_getElem? c.names id
    have hformat : c.lookupFields (c.format.filterMap fun i => c.names[i]?) = (c.format, none) :=
      lookupFields_names hc.wired fun i hi => by
        rw [hc.format] at hi
        exact List.mem_range.1 hi
    rwa [hnames] at hformat
  rw [changeELFFormat, helf, hlookup]

/-- The directive is understood. -/
lemma endComment_written {v : Vocabulary} {fs : List LogField} (hc : Configured v c fs)
    (hspace : c.inEventSplit 32 = false)
    (hnames : ∀ f ∈ c.fields, ∀ b ∈ f.logField, b ≠ 0 ∧ b ≠ 32 ∧ c.inEventSplit b = false)
    (hlength : (fieldsElfHeader ++ c.fields.flatMap fun f => 32 :: f.logField).length ≤
      readBufferSize) (hne : c.fields ≠ []) {rest : Bytes} :
    endComment stale c (fieldsElfHeader ++ c.fields.flatMap fun f => 32 :: f.logField) rest =
      (c, none) := by
  cases helf : c.handleElfHeaders with
  | false => exact endComment_of_not_directive (by rw [helf, Bool.false_and])
  | true =>
    obtain ⟨fmt, hfmt⟩ : ∃ fmt, (c.fields.flatMap fun f => 32 :: f.logField) = 32 :: fmt := by
      obtain ⟨f, gs, hlist⟩ := List.exists_cons_of_ne_nil hne
      rw [hlist, List.flatMap_cons]
      exact ⟨_, rfl⟩
    have hdirective : directive (stale rest) (fieldsElfHeader ++ 32 :: fmt) = some fmt := by
      rw [hfmt] at hlength
      have hname : cString fieldsElfHeader = fieldsElfHeader := by decide
      have hlong : ¬ (fieldsElfHeader ++ 32 :: fmt).length ≤ fieldsElfHeader.length := by
        rw [List.length_append, List.length_cons]
        omega
      rw [directive, List.take_left', if_pos hname, if_neg hlong, List.take_of_length_le hlength]
      · rfl
      · rfl
    rw [endComment, helf, if_pos rfl, hfmt, hdirective]
    exact changeELFFormat_written hc hspace hnames hfmt

variable (stale) in
/-- The headers are skipped, and leave the codec as it is. -/
lemma consumeVoids_elfHeaders {v : Vocabulary} {fs : List LogField} (hc : Configured v c fs)
    {date version : Bytes} (hheaders : HeadersReadable c date version) (hends : EndsEvents c)
    (hne : c.fields ≠ []) (s : Bytes) :
    consumeVoids stale c none (elfHeaders c date version ++ s) = consumeVoids stale c none s := by
  obtain ⟨h35, htexts, hnames, hlength⟩ := hheaders
  simp only [List.forall_mem_append] at htexts
  obtain ⟨⟨⟨hversion, hname, hdate⟩, hsoftware, hpion⟩, hfields⟩ := htexts
  have hspace : c.inEventSplit 32 = false := hversion 32 (by decide)
  -- a header that is no directive
  have hskip : ∀ (b : Byte) (text s : Bytes), b ≠ 70 →
      (∀ b' ∈ 35 :: b :: text, c.inEventSplit b' = false) →
      consumeVoids stale c none (35 :: b :: text ++ c.eventJoin ++ s) =
        consumeVoids stale c none s := by
    intro b text s hb htext
    refine consumeVoids_header h35 hends (fun b' hb' => htext b' (List.mem_cons_of_mem _ hb')) ?_
    exact endComment_of_not_directive (by rw [isDirective_of_ne hb, Bool.and_false])
  -- the directive
  have htext : ∀ b ∈ ascii "Fields:" ++ c.fields.flatMap fun f => 32 :: f.logField,
      c.inEventSplit b = false := by
    intro b hb
    rcases List.mem_append.1 hb with hb | hb
    · exact hfields b (List.mem_cons_of_mem 35 hb)
    · obtain ⟨g, hg, hb⟩ := List.mem_flatMap.1 hb
      rcases List.mem_cons.1 hb with rfl | hb
      · exact hspace
      · exact (hnames g hg b hb).2.2
  have hlast : consumeVoids stale c none
      (fieldsElfHeader ++ (c.fields.flatMap fun f => 32 :: f.logField) ++ c.eventJoin ++ s) =
        consumeVoids stale c none s :=
    consumeVoids_header h35 hends htext (endComment_written hc hspace hnames hlength hne)
  have hsplit : elfHeaders c date version ++ s =
      ascii "#Version: 1.0" ++ c.eventJoin ++ ((ascii "#Date: " ++ date) ++ c.eventJoin ++
        ((ascii "#Software: Pion v" ++ version) ++ c.eventJoin ++ (fieldsElfHeader ++
          (c.fields.flatMap fun f => 32 :: f.logField) ++ c.eventJoin ++ s))) := by
    simp only [elfHeaders, List.append_assoc]
  rw [hsplit]
  refine (hskip 86 _ _ (by decide) hversion).trans ?_
  refine (hskip 68 _ _ (by decide) (List.forall_mem_append.2 ⟨hname, hdate⟩)).trans ?_
  exact (hskip 83 _ _ (by decide) (List.forall_mem_append.2 ⟨hsoftware, hpion⟩)).trans hlast

/-! ### The round trip -/

/-- Separators and headers that are read as what they were written for. -/
structure Coherent (c : LogCodec) (date version : Bytes) : Prop where
  joins : 1 < c.fields.length → Joins c
  ends : EndsEvents c
  headers : c.handleElfHeaders = true → HeadersReadable c date version

/-- An event that has the first value of each mapped field, and nothing else. -/
def Restricts (c : LogCodec) (e e' : Event φ δ χ θ) : Prop :=
  SortedMultimap.Sorted e' ∧ ∀ termRef, SortedMultimap.values termRef e' =
    if termRef ∈ c.refs then (e.getPointer termRef).toList else []

lemma values_firstValues {fs : List LogField} (hnodup : (fs.map fun f => f.logTerm.termRef).Nodup)
    (termRef : ℕ) : SortedMultimap.values termRef (firstValues e fs) =
      if termRef ∈ fs.map fun f => f.logTerm.termRef then (e.getPointer termRef).toList
      else [] := by
  induction fs with
  | nil => rfl
  | cons f fs ih =>
    rw [List.map_cons, List.nodup_cons] at hnodup
    rw [firstValues_cons, SortedMultimap.values_append, ih hnodup.2, List.map_cons]
    by_cases href : termRef = f.logTerm.termRef
    · subst href
      rw [if_neg hnodup.1, if_pos List.mem_cons_self, List.append_nil]
      cases hvalue : e.getPointer f.logTerm.termRef <;>
        simp [firstValues, SortedMultimap.values, hvalue]
    · have hnone : SortedMultimap.values termRef (firstValues e [f]) = [] := by
        cases hvalue : e.getPointer f.logTerm.termRef <;>
          simp [firstValues, SortedMultimap.values, hvalue, Ne.symm href]
      rw [hnone, List.nil_append]
      simp only [List.mem_cons, href, false_or]

lemma restricts_restrict {v : Vocabulary} {fs : List LogField} (hc : Configured v c fs)
    (e : Event φ δ χ θ) : Restricts c e (restrict c e) := by
  have hrefs : c.fields.map (fun f => f.logTerm.termRef) = c.refs := by
    rw [hc.fields_eq, List.map_map]
    rfl
  have hnodup : c.refs.Nodup := by
    rw [refs, hc.fieldMap, List.map_map]
    exact hc.refs
  have hsorted : SortedMultimap.Sorted ([] : Event φ δ χ θ) := List.Pairwise.nil
  refine ⟨hsorted.insertAll, fun termRef => ?_⟩
  rw [restrict, SortedMultimap.values_insertAll hsorted,
    values_firstValues (hrefs ▸ hnodup), hrefs]
  rfl

lemma writeFields_wrote (flag : Bool) (fs : List LogField) :
    writeFields print { c with wroteElfHeaders := flag } e fs = writeFields print c e fs := by
  induction fs with
  | nil => rfl
  | cons f fs ih => rw [writeFields, writeFields, ih]

lemma lines_wrote (flag : Bool) (es : List (Event φ δ χ θ)) :
    lines print { c with wroteElfHeaders := flag } es = lines print c es := by
  induction es with
  | nil => rfl
  | cons e es ih =>
    rw [lines, lines, ih]
    exact congrArg (· >>= _) (writeFields_wrote flag c.fields)

/-- Behind the headers, only lines are written. -/
lemma writeAll_of_wrote (date version : Bytes) {c : LogCodec}
    (hwrote : (c.handleElfHeaders && ! c.wroteElfHeaders) = false) (es : List (Event φ δ χ θ)) :
    writeAll print date version c es = lines print c es := by
  induction es with
  | nil => rfl
  | cons e es ih =>
    rw [writeAll, lines, write, hwrote]
    cases writeFields print c e c.fields with
    | none => rfl
    | some texts => exact congrArg (· >>= _) ih

lemma writeAll_cons (date version : Bytes) (c : LogCodec) (e : Event φ δ χ θ)
    (es : List (Event φ δ χ θ)) :
    writeAll print date version c (e :: es) = (lines print c (e :: es)).map fun out =>
      (if c.handleElfHeaders && ! c.wroteElfHeaders then elfHeaders c date version else []) ++
        out := by
  cases hheaders : c.handleElfHeaders && ! c.wroteElfHeaders with
  | false =>
    rw [writeAll_of_wrote date version hheaders]
    exact Option.map_id'.symm
  | true =>
    have hwrote : ({ c with wroteElfHeaders := true }.handleElfHeaders && ! true) = false :=
      Bool.and_false _
    have hlines : writeAll print date version { c with wroteElfHeaders := true } es =
        lines print c es :=
      (writeAll_of_wrote date version hwrote es).trans (lines_wrote true es)
    rw [writeAll, lines, write, hheaders]
    cases writeFields print c e c.fields with
    | none => rfl
    | some texts =>
      show (writeAll print date version { c with wroteElfHeaders := true } es >>= _) = _
      rw [hlines]
      cases lines print c es with
      | none => rfl
      | some rest => exact congrArg some (by simp)

variable (conv stale) in
/-- Events that are written are read back, in their order, and then the end of the stream. -/
theorem log_round_trip {edits : List Vocabulary.Edit} {config : LogConfig}
    (hc : setConfig (Vocabulary.make edits) config = .ok c) (hconv : PrintsBack conv)
    {date version : Bytes} (hcoherent : Coherent c date version) {es : List (Event φ δ χ θ)}
    (hes : ∀ e ∈ es, EventReadable print conv c e) :
    ∃ out es', writeAll print date version c es = some out ∧
      reads conv stale (es.length + 1) c out = es'.map .event ++ [.eof] ∧
      List.Forall₂ (Restricts c) es es' := by
  obtain ⟨fs, hconfigured⟩ := setConfig_configured (Vocabulary.sound_make edits) hc
  obtain ⟨out, hout, hreads⟩ := reads_lines stale hconv hcoherent.joins hcoherent.ends hes
  have hrestricts : List.Forall₂ (Restricts c) es (es.map (restrict c)) := by
    rw [List.forall₂_map_right_iff, List.forall₂_same]
    exact fun e _ => restricts_restrict hconfigured e
  have hmap : (es.map (restrict c)).map ReadResult.event =
      es.map fun e => .event (restrict c e) := List.map_map
  cases es with
  | nil => exact ⟨out, _, hout, by rw [hmap]; exact hreads, hrestricts⟩
  | cons e es =>
    refine ⟨_, _, by rw [writeAll_cons, hout]; rfl, ?_, hrestricts⟩
    rw [hmap, ← hreads]
    split_ifs with hheaders
    · have helf : c.handleElfHeaders = true := (Bool.and_eq_true_iff.1 hheaders).1
      have hne : c.fields ≠ [] := by
        intro hnil
        obtain ⟨b, t, htexts, -⟩ := (hes e List.mem_cons_self).begins [] (by rw [hnil]; rfl)
        cases htexts
      exact reads_congr (consumeVoids_elfHeaders stale hconfigured (hcoherent.headers helf)
        hcoherent.ends hne out) _
    · rfl

/-! ### Numbers in decimal -/

/-- A signed integer between `-bound` and `bound - 1`: an optional sign, then digits only. -/
def readSigned (bound : ℕ) : Bytes → Option ℤ
  | 45 :: ds => (lexicalCast.readUnsigned (bound + 1) ds).map fun n : ℕ => -(n : ℤ)
  | ds => (lexicalCast bound ds).map fun n : ℕ => (n : ℤ)

lemma readSigned_decimal {bound : ℕ} {z : ℤ} (hlow : -(bound : ℤ) ≤ z) (hhigh : z < bound) :
    readSigned bound (decimal z) = some z := by
  rw [decimal]
  split_ifs with hz
  · have hread : lexicalCast bound (numeral 10 z.toNat) = some z.toNat :=
      lexicalCast_numeral (by omega)
    obtain ⟨d, ds, hds⟩ := List.exists_cons_of_ne_nil (numeral_ne_nil 10 z.toNat)
    have hdigit : isDigit d = true :=
      isDigit_of_mem_numeral (n := z.toNat) (hds ▸ List.mem_cons_self)
    rw [hds] at hread ⊢
    have hne : d ≠ 45 := by
      rintro rfl
      exact absurd hdigit (by decide)
    rw [readSigned, hread, Option.map_some, Int.toNat_of_nonneg hz]
    intro ds' h
    exact hne (List.cons.inj h).1
  · rw [readSigned, readUnsigned_numeral (by omega), Option.map_some,
      Int.toNat_of_nonneg (by omega), neg_neg]

/-- Conversions that read decimal numbers, and copy every string. -/
def signedDecimals : LogConversions Unit Unit Unit Unit where
  toConversions := { Event.noNumbers with
    toInt32 := fun s => (readSigned 2147483648 s).map Int32.ofInt
    toUInt32 := fun s => (lexicalCast 4294967296 s).map UInt32.ofNat
    toInt64 := fun s => (readSigned 9223372036854775808 s).map Int64.ofInt
    toUInt64 := fun s => (lexicalCast 18446744073709551616 s).map UInt64.ofNat }
  addOffset _ _ := ()

lemma printsBack_signedDecimals : PrintsBack signedDecimals where
  toInt32 v := by
    show (readSigned 2147483648 (decimal v.toInt)).map Int32.ofInt = some v
    rw [readSigned_decimal v.le_toInt v.toInt_lt, Option.map_some, Int32.ofInt_toInt]
  toUInt32 v := by
    show (lexicalCast 4294967296 (numeral 10 v.toNat)).map UInt32.ofNat = some v
    rw [lexicalCast_numeral v.toNat_lt, Option.map_some, UInt32.ofNat_toNat]
  toInt64 v := by
    show (readSigned 9223372036854775808 (decimal v.toInt)).map Int64.ofInt = some v
    rw [readSigned_decimal v.le_toInt v.toInt_lt, Option.map_some, Int64.ofInt_toInt]
  toUInt64 v := by
    show (lexicalCast 18446744073709551616 (numeral 10 v.toNat)).map UInt64.ofNat = some v
    rw [lexicalCast_numeral v.toNat_lt, Option.map_some, UInt64.ofNat_toNat]

def noPrinters : LogPrinters Unit Unit Unit Unit where
  ofFloat _ := []
  ofDouble _ := []
  ofLongDouble _ := []
  ofDateTime _ _ := []
  subOffset _ _ := ()

def numberField : LogField :=
  { logField := ascii "a"
    logTerm := { termId := ascii "t", termRef := 1, termType := .int32 } }

def quotedField : LogField :=
  { logField := ascii "b"
    logTerm := { termId := ascii "u", termRef := 2, termType := .string }
    logDelimStart := 34
    logDelimEnd := 34
    logEmptyVal := [] }

/-- A codec with headers, for a number and a string in quotes. -/
def quoted : LogCodec :=
  { fieldMap := [(ascii "a", numberField), (ascii "b", quotedField)]
    format := [0, 1]
    handleElfHeaders := true }

lemma coherent_quoted : Coherent quoted (ascii "now") (ascii "5") where
  joins _ := ⟨by decide, by decide +kernel, fun _ => rfl⟩
  ends := ⟨10, [], rfl, by decide +kernel, List.forall_mem_nil _⟩
  headers _ := ⟨by decide +kernel, by decide +kernel, by decide +kernel, by decide +kernel⟩

/-- The second event has no number. -/
def quotedEvents : List (Event Unit Unit Unit Unit) :=
  [[(1, .int32 (-7)), (2, .blob (ascii "x \"y"))], [(2, .blob (ascii "z"))]]

lemma eventReadable_quoted :
    ∀ e ∈ quotedEvents, EventReadable noPrinters signedDecimals quoted e := by
  have hfields : quoted.fields = [numberField, quotedField] := by decide
  have hnumber : ∀ src, (∀ b ∈ src, b ≠ 0 ∧ quoted.isVoid b = false) ∧
      src.length ≤ readBufferSize → Readable quoted numberField src := fun src hsrc =>
    ⟨fun b hb => (hsrc.1 b hb).1, hsrc.2, Or.inl ⟨rfl, rfl, fun b hb => (hsrc.1 b hb).2⟩⟩
  have hquoted : ∀ (e : Event Unit Unit Unit Unit) src, e.getPointer 2 = some (.blob src) →
      (∀ b ∈ src, b ≠ 0) ∧ src ≠ [] ∧ src.length ≤ readBufferSize ∧ src.getLast? ≠ some 92 →
      FieldReadable noPrinters signedDecimals quoted quotedField e := by
    rintro e src hvalue ⟨hzero, hne, hlength, hlast⟩
    have hpointer : e.getPointer quotedField.logTerm.termRef = some (.blob src) := hvalue
    rw [FieldReadable, hpointer]
    exact ⟨⟨hzero, rfl⟩, src, rfl, hne, hne, hzero, hlength,
      Or.inr ⟨by decide, by decide, by decide, fun _ => by decide, hlast, fun _ => by decide⟩⟩
  have hminus : Begins quoted 45 := ⟨by decide +kernel, by decide +kernel⟩
  have hbegins : ∀ e t, writeFields noPrinters quoted e quoted.fields = some (45 :: t) →
      ∀ texts, writeFields noPrinters quoted e quoted.fields = some texts →
        ∃ b t, texts = b :: t ∧ Begins quoted b := fun e t hwrite texts htexts =>
    ⟨45, t, Option.some.inj (htexts.symm.trans hwrite), hminus⟩
  rw [quotedEvents, List.forall_mem_cons, List.forall_mem_singleton]
  constructor
  · constructor
    · rw [hfields, List.forall_mem_cons, List.forall_mem_singleton]
      constructor
      · exact ⟨trivial, ascii "-7", by decide +kernel, by decide, by decide +kernel,
          hnumber _ (by decide +kernel)⟩
      · exact hquoted _ (ascii "x \"y") rfl (by decide +kernel)
    · exact hbegins _ (ascii "7 \"x \\\"y\"") (by decide +kernel)
  · constructor
    · rw [hfields, List.forall_mem_cons, List.forall_mem_singleton]
      constructor
      · exact ⟨hnumber _ (by decide +kernel), by decide +kernel, by decide⟩
      · exact hquoted _ (ascii "z") rfl (by decide +kernel)
    · exact hbegins _ (ascii " \"z\"") (by decide +kernel)

/-- Two events are written, and read back. -/
theorem log_round_trip_quoted :
    let edits := [.addTerm { termId := ascii "t", termType := .int32 },
      .addTerm { termId := ascii "u", termType := .string }]
    let config : LogConfig :=
      { headers := true
        fields := [{ field := ascii "a", term := ascii "t" },
          { field := ascii "b", term := ascii "u", start := some [34] }] }
    (setConfig (Vocabulary.make edits) config).toOption = some quoted ∧
      writeAll noPrinters (ascii "now") (ascii "5") quoted quotedEvents =
        some (ascii ("#Version: 1.0\n#Date: now\n#Software: Pion v5\n#Fields: a b\n" ++
          "-7 \"x \\\"y\"\n- \"z\"\n")) ∧
      ∃ out es', writeAll noPrinters (ascii "now") (ascii "5") quoted quotedEvents = some out ∧
        reads signedDecimals (fun _ => []) 3 quoted out = es'.map .event ++ [.eof] ∧
        List.Forall₂ (Restricts quoted) quotedEvents es' := by
  intro edits config
  have hconfig : (setConfig (Vocabulary.make edits) config).toOption = some quoted := by
    decide +kernel
  refine ⟨hconfig, by decide +kernel, ?_⟩
  have hok : setConfig (Vocabulary.make edits) config = .ok quoted := by
    cases hset : setConfig (Vocabulary.make edits) config with
    | error x => rw [hset] at hconfig; cases hconfig
    | ok d => rw [hset] at hconfig; exact congrArg Except.ok (Option.some.inj hconfig)
  exact log_round_trip signedDecimals (fun _ => []) hok printsBack_signedDecimals coherent_quoted
    eventReadable_quoted

/-- The separators do not split, or split twice, the headers are no comments, or a line begins with
a field that has no text. -/
theorem log_round_trip_fails :
    let edits := [.addTerm { termId := ascii "t", termType := .int32 },
      .addTerm { termId := ascii "u", termType := .int32 }]
    let fields (empty : Option Bytes) : List FieldConfig :=
      [{ field := ascii "a", term := ascii "t", empty := empty },
        { field := ascii "b", term := ascii "u" }]
    let event : Event Unit Unit Unit Unit := [(1, .int32 1), (2, .int32 2)]
    let back (n : ℕ) (config : LogConfig) (events : List (Event Unit Unit Unit Unit)) :=
      (setConfig (Vocabulary.make edits) config).toOption.bind fun c =>
        (writeAll noPrinters (ascii "now") (ascii "5") c events).map fun out =>
          (reads signedDecimals (fun _ => []) n c out).map ReadResult.terms
    let mapped : LogConfig := { fields := fields none }
    back 2 mapped [event] = some [some [1, 2], none] ∧
      back 2 { mapped with fieldJoin := some (ascii "|") } [event] = some [none, none] ∧
      back 2 { mapped with eventJoin := some (ascii "|") } [event] = some [none, none] ∧
      back 2 { mapped with fieldJoin := some (ascii "  "), consume := some (ascii "false") }
        [event] = some [some [1], none] ∧
      back 2 { mapped with headers := true, eventComment := some (ascii ";") } [event] =
        some [none, none] ∧
      back 2 { fields := fields (some []) } [[(2, .int32 2)]] = some [some [1], none] := by
  intro edits fields event back mapped
  decide +kernel

end LogCodec

end PionCore.Platform
