/-
# Reading log lines

`LogCodec::read` goes through the characters of a stream with the fields of the current format.  It
keeps no boundary of the record: what throws leaves the stream where it was, and the rest of the
line is read as a record of its own (`malformed_contained`).

A stream is the list of its characters, so that the end of file is the empty list.  `char` is
signed, and compared with the `int` that was read; the end of file is `-1`.
-/
import Mathlib.Data.List.TakeWhile
import PionCore.Common.PionAlgorithms
import PionCore.Platform.Event
import PionCore.Platform.LogCodec

namespace PionCore.Platform

open PionCore.Lib PionCore.Common

/-- `READ_BUFFER_SIZE`. -/
def readBufferSize : ℕ := 1024 * 128

/-- The conversions of a codec: those of an event, and the offset of a time in minutes. -/
structure LogConversions (φ δ χ θ : Type*) extends Conversions φ δ χ θ where
  addOffset : θ → ℤ → θ

/-- What a call of `read` does: it returns an event, finds the end of the stream, or throws. -/
inductive ReadResult (φ δ χ θ : Type*) where
  | event (e : Event φ δ χ θ)
  | eof
  | threw

variable {φ δ χ θ : Type*} (conv : LogConversions φ δ χ θ)

/-- The terms that are set, if a call returns an event. -/
def ReadResult.terms : ReadResult φ δ χ θ → Option (List ℕ)
  | .event e => some (e.map Prod.fst)
  | .eof | .threw => none

/-- `LogField::read` of a text; a conversion may throw. -/
def LogField.read (f : LogField) (buf : Bytes) (e : Event φ δ χ θ) : Option (Event φ δ χ θ) :=
  let text := if f.logUrlencode then urlDecode buf else buf
  match f.logTerm.termType with
  | .null | .object => some e
  | .int8 | .int16 | .int32 => e.setX f.logTerm.termRef ((conv.toInt32 buf).map .int32)
  | .int64 => e.setX f.logTerm.termRef ((conv.toInt64 buf).map .int64)
  | .uint8 | .uint16 | .uint32 => e.setX f.logTerm.termRef ((conv.toUInt32 buf).map .uint32)
  | .uint64 => e.setX f.logTerm.termRef ((conv.toUInt64 buf).map .uint64)
  | .float => e.setX f.logTerm.termRef ((conv.toFloat buf).map .float)
  | .double => e.setX f.logTerm.termRef ((conv.toDouble buf).map .double)
  | .longDouble => e.setX f.logTerm.termRef ((conv.toLongDouble buf).map .longDouble)
  | .shortString | .string | .longString =>
    e.setString conv.toConversions f.logTerm.termRef text
  | .blob | .zblob => e.setBlob f.logTerm.termRef text
  | .char =>
    e.setString conv.toConversions f.logTerm.termRef (text.take f.logTerm.termSize)
  | .dateTime | .date | .time =>
    (conv.toDateTime f.logTimeFacet text).bind fun dt =>
      e.setDateTime f.logTerm.termRef
        (if f.logDoTimeOffset then conv.addOffset dt f.logTimeOffset else dt)

namespace LogCodec

/-- `c == delim`, where the end of file is `-1`. -/
def isDelim (delim : Byte) : Option Byte → Bool
  | none => delim == 255
  | some b => b == delim && decide (b < 128)

def inFieldSplit (c : LogCodec) (b : Byte) : Bool := c.fieldSplit.contains b

def inEventSplit (c : LogCodec) (b : Byte) : Bool := c.eventSplit.contains b

/-- A character that `consumeVoidsAndComments` skips. -/
def isVoid (c : LogCodec) (b : Byte) : Bool := c.inFieldSplit b || c.inEventSplit b

/-! ### Comments -/

def fieldsElfHeader : Bytes := ascii "#Fields:"

/-- What `changeELFFormat` gets, if a comment is a directive.  Behind a bare directive it gets what
earlier lines have left in the buffer. -/
def directive (stale comment : Bytes) : Option Bytes :=
  if cString (comment.take fieldsElfHeader.length) = fieldsElfHeader then
    some (if comment.length ≤ fieldsElfHeader.length then stale
      else (comment.take readBufferSize).drop (fieldsElfHeader.length + 1))
  else none

/-- The end of a comment in front of the rest of the stream. -/
def endComment (stale : Bytes → Bytes) (c : LogCodec) (comment rest : Bytes) :
    LogCodec × Option LogCodecError :=
  match if c.handleElfHeaders then directive (stale rest) comment else none with
  | some fmt => c.changeELFFormat fmt
  | none => (c, none)

/-- `consumeVoidsAndComments`, in front of a line or behind the beginning of a comment: the codec,
the rest of the stream, and the exception.  `stale` is what the buffer holds behind a bare
directive in front of a rest of the stream. -/
def consumeVoids (stale : Bytes → Bytes) (c : LogCodec) :
    Option Bytes → Bytes → LogCodec × Bytes × Option LogCodecError
  | none, [] => (c, [], none)
  | none, b :: s =>
    if c.isVoid b then consumeVoids stale c none s
    else if c.commentChars.contains b then consumeVoids stale c (some [b]) s
    else (c, b :: s, none)
  | some comment, [] =>
    ((endComment stale c comment []).1, [], (endComment stale c comment []).2)
  | some comment, b :: s =>
    if c.inEventSplit b then
      match endComment stale c comment (b :: s) with
      | (changed, none) => consumeVoids stale changed none s
      | (changed, some exception) => (changed, b :: s, some exception)
    else consumeVoids stale c (some (comment ++ [b])) s

/-! ### Fields -/

/-- The loop over the contents of a field: the text in the buffer, and the rest of the stream. -/
def readText (c : LogCodec) (delimEnd escapeChar : Byte) : Bytes → Bytes → Bytes × Bytes
  | buf, [] => (buf, [])
  | buf, b :: s =>
    if delimEnd != 0 && isDelim delimEnd (some b) then
      -- an escaped delimiter overwrites the escape character
      if buf.getLast? = some escapeChar then
        readText c delimEnd escapeChar (buf.dropLast ++ [b]) s
      else (buf, s)
    else if delimEnd == 0 && c.isVoid b then (buf, b :: s)
    else
      readText c delimEnd escapeChar (if buf.length < readBufferSize then buf ++ [b] else buf) s

/-- The contents of a field; behind a delimiter at the end of the stream, `-1` is read as a
character. -/
def readContents (c : LogCodec) (delimEnd escapeChar : Byte) : Bytes → Bytes × Bytes
  | [] =>
    if delimEnd != 0 && isDelim delimEnd none || delimEnd == 0 && c.isVoid 255 then ([], [])
    else ([255], [])
  | b :: s => readText c delimEnd escapeChar [] (b :: s)

/-- The delimiter that ends a field, and the rest of the stream behind the one that starts it, or
`none` if that is missing. -/
def startField (f : LogField) (s : Bytes) : Option (Byte × Bytes) :=
  if f.logDelimStart = 0 then some (f.logDelimEnd, s)
  else if isDelim f.logDelimStart s.head? then some (f.logDelimEnd, s.tail)
  else if f.logOptDelims then some (0, s)
  else none

/-- Parse and set a value that is not empty. -/
def setText (f : LogField) (buf : Bytes) (e : Event φ δ χ θ) : Option (Event φ δ χ θ) :=
  if cString buf = [] ∨ cString buf = f.logEmptyVal then some e
  else f.read conv (cString buf) e

/-- Skip the delimiters between fields. -/
def skipSplit (c : LogCodec) (s : Bytes) : Bytes :=
  if c.consumeDelims then s.tail.dropWhile c.inFieldSplit else s.tail

/-- The loop over the fields: the event, unless a conversion has thrown, and the rest of the
stream. -/
def readFields (c : LogCodec) :
    List LogField → Event φ δ χ θ → Bytes → Option (Event φ δ χ θ) × Bytes
  | [], e, s => (some e, s)
  | f :: fs, e, s =>
    if s.head?.all c.inEventSplit then (some e, s)
    else
      match startField f s with
      | none => (some e, s)
      | some (delimEnd, rest) =>
        let text := readContents c delimEnd f.logEscapeChar rest
        match setText conv f text.1 e with
        | none => (none, text.2)
        | some e =>
          if text.2.head?.all fun b => c.inEventSplit b || ! c.inFieldSplit b then (some e, text.2)
          else readFields c fs e (c.skipSplit text.2)

/-- Skip the rest of the record, and the empty records behind it. -/
def skipRecord (c : LogCodec) (s : Bytes) : Bytes :=
  (s.dropWhile fun b => ! c.inEventSplit b).dropWhile c.inEventSplit

/-- `read` into a cleared event: the codec, the rest of the stream, and the result. -/
def read (stale : Bytes → Bytes) (c : LogCodec) (s : Bytes) :
    LogCodec × Bytes × ReadResult φ δ χ θ :=
  match consumeVoids stale c none s with
  | (c, s, some _) => (c, s, .threw)
  | (c, [], none) => (c, [], .eof)
  | (c, b :: s, none) =>
    match readFields conv c c.fields [] (b :: s) with
    | (none, s) => (c, s, .threw)
    | (some e, s) => (c, c.skipRecord s, .event e)

/-- The results of some calls of `read`. -/
def reads (stale : Bytes → Bytes) : ℕ → LogCodec → Bytes → List (ReadResult φ δ χ θ)
  | 0, _, _ => []
  | n + 1, c, s =>
    let result := read conv stale c s
    result.2.2 :: reads stale n result.1 result.2.1

/-! ### Voids and comments -/

variable {stale : Bytes → Bytes} {c c' : LogCodec} {s mid record rest left : Bytes}

/-- The rest of a stream behind the text of a record. -/
def EndsRecord (c : LogCodec) (rest : Bytes) : Prop := rest.head?.all c.inEventSplit = true

lemma consumeVoids_void {voids : Bytes} (h : ∀ b ∈ voids, c.isVoid b = true) (s : Bytes) :
    consumeVoids stale c none (voids ++ s) = consumeVoids stale c none s := by
  induction voids with
  | nil => rfl
  | cons b voids ih =>
    rw [List.cons_append, consumeVoids, if_pos (h b List.mem_cons_self)]
    exact ih fun b' hb' => h b' (List.mem_cons_of_mem b hb')

lemma consumeVoids_comment {text comment : Bytes} (h : ∀ b ∈ text, c.inEventSplit b = false)
    (s : Bytes) : consumeVoids stale c (some comment) (text ++ s) =
      consumeVoids stale c (some (comment ++ text)) s := by
  induction text generalizing comment with
  | nil => rw [List.nil_append, List.append_nil]
  | cons b text ih =>
    rw [List.cons_append, consumeVoids, h b List.mem_cons_self, if_neg Bool.false_ne_true,
      ih fun b' hb' => h b' (List.mem_cons_of_mem b hb'), List.append_assoc]
    rfl

/-- A comment that is no directive is skipped. -/
lemma consumeVoids_endComment {comment : Bytes} (hrest : EndsRecord c rest)
    (h : endComment stale c comment rest = (c, none)) :
    consumeVoids stale c (some comment) rest = consumeVoids stale c none rest := by
  cases rest with
  | nil =>
    show ((endComment stale c comment []).1, [], (endComment stale c comment []).2) = _
    rw [h]
    rfl
  | cons b s =>
    have hb : c.inEventSplit b = true := hrest
    have hvoid : c.isVoid b = true := by rw [isVoid, hb, Bool.or_true]
    have hskip : consumeVoids stale c none ([b] ++ s) = consumeVoids stale c none s :=
      consumeVoids_void (by simpa using hvoid) s
    rw [List.singleton_append] at hskip
    rw [hskip, consumeVoids, if_pos hb, h]

/-- A comment line is a `#Fields` directive. -/
def isDirective (comment : Bytes) : Bool :=
  cString (comment.take fieldsElfHeader.length) == fieldsElfHeader

/-- Behind a field of a record there are only field delimiters, or a comment that is no
directive. -/
def VoidTail (c : LogCodec) (mid : Bytes) : Prop :=
  match mid.dropWhile c.inFieldSplit with
  | [] => True
  | b :: text =>
    c.commentChars.contains b = true ∧ (c.handleElfHeaders && isDirective (b :: text)) = false

lemma endComment_of_not_directive {comment : Bytes}
    (h : (c.handleElfHeaders && isDirective comment) = false) :
    endComment stale c comment rest = (c, none) := by
  rw [endComment]
  cases helf : c.handleElfHeaders with
  | false => rfl
  | true =>
    have hnot : directive (stale rest) comment = none := by
      rw [directive, if_neg]
      simpa [helf, isDirective] using h
    rw [if_pos rfl, hnot]

lemma not_isVoid {b : Byte} (hfield : c.inFieldSplit b = false)
    (hevent : c.inEventSplit b = false) : c.isVoid b = false := by
  rw [isVoid, hfield, hevent, Bool.or_false]

lemma dropWhile_cons_head {p : Byte → Bool} {l t : Bytes} {b : Byte}
    (h : l.dropWhile p = b :: t) : p b = false := by
  have hhead := List.head?_dropWhile_not p l
  rw [h] at hhead
  simpa using hhead

lemma consumeVoids_dropWhile {p : Byte → Bool} (hp : ∀ b, p b = true → c.isVoid b = true)
    (mid s : Bytes) :
    consumeVoids stale c none (mid ++ s) = consumeVoids stale c none (mid.dropWhile p ++ s) := by
  have hsplit : mid ++ s = mid.takeWhile p ++ (mid.dropWhile p ++ s) := by
    rw [← List.append_assoc, List.takeWhile_append_dropWhile]
  rw [hsplit]
  exact consumeVoids_void (fun b hb => hp b (List.mem_takeWhile_imp hb)) _

lemma consumeVoids_skipFields (mid : Bytes) (s : Bytes) :
    consumeVoids stale c none (mid ++ s) =
      consumeVoids stale c none (mid.dropWhile c.inFieldSplit ++ s) :=
  consumeVoids_dropWhile (fun b hb => by rw [isVoid, hb, Bool.true_or]) mid s

lemma consumeVoids_skipEvents (s : Bytes) :
    consumeVoids stale c none s = consumeVoids stale c none (s.dropWhile c.inEventSplit) := by
  have hvoid : ∀ b, c.inEventSplit b = true → c.isVoid b = true := fun b hb => by
    rw [isVoid, hb, Bool.or_true]
  simpa only [List.append_nil] using consumeVoids_dropWhile hvoid s []

lemma consumeVoids_voidTail (hmid : ∀ b ∈ mid, c.inEventSplit b = false) (hrest : EndsRecord c rest)
    (h : VoidTail c mid) :
    consumeVoids stale c none (mid ++ rest) = consumeVoids stale c none rest := by
  rw [consumeVoids_skipFields]
  cases hdrop : mid.dropWhile c.inFieldSplit with
  | nil => rfl
  | cons b text =>
    rw [VoidTail, hdrop] at h
    obtain ⟨hcomment, hdirective⟩ := h
    have hmem : ∀ b' ∈ b :: text, c.inEventSplit b' = false := fun b' hb' =>
      hmid b' (List.dropWhile_sublist _ |>.subset (hdrop ▸ hb'))
    have hvoid := not_isVoid (dropWhile_cons_head hdrop) (hmem b List.mem_cons_self)
    rw [List.cons_append, consumeVoids, hvoid, if_neg Bool.false_ne_true, if_pos hcomment,
      consumeVoids_comment fun b' hb' => hmem b' (List.mem_cons_of_mem b hb')]
    exact consumeVoids_endComment hrest (endComment_of_not_directive hdirective)

/-! ### A record that throws -/

/-- The following calls of `read` do what they would do in front of the remaining records. -/
def Contained (stale : Bytes → Bytes) (c : LogCodec) (left rest : Bytes) : Prop :=
  ∀ n, reads conv stale n c left = reads conv stale n c rest

variable {conv}

lemma read_congr {s' : Bytes}
    (h : consumeVoids stale c none s = consumeVoids stale c none s') :
    read conv stale c s = read conv stale c s' := by
  rw [read, read, h]

lemma reads_congr {s' : Bytes} (h : consumeVoids stale c none s = consumeVoids stale c none s')
    (n : ℕ) : reads conv stale n c s = reads conv stale n c s' := by
  cases n with
  | zero => rfl
  | succ n => rw [reads, reads, read_congr h]

/-- No headers, no delimited fields, and no character that splits both fields and events. -/
structure Plain (c : LogCodec) : Prop where
  noHeaders : c.handleElfHeaders = false
  noDelims : ∀ f ∈ c.fields, f.logDelimStart = 0 ∧ f.logDelimEnd = 0
  disjoint : ∀ b, c.inFieldSplit b = true → c.inEventSplit b = false

lemma endComment_of_noHeaders (h : c.handleElfHeaders = false) {comment : Bytes} :
    endComment stale c comment rest = (c, none) :=
  endComment_of_not_directive (by rw [h, Bool.false_and])

/-- A character that begins a record. -/
def Begins (c : LogCodec) (b : Byte) : Prop :=
  c.isVoid b = false ∧ c.commentChars.contains b = false

variable (stale) in
/-- Without headers, the codec stays the same, and nothing throws in front of a record. -/
lemma consumeVoids_of_noHeaders (h : c.handleElfHeaders = false) (comment : Option Bytes)
    (s : Bytes) : ∃ s', consumeVoids stale c comment s = (c, s', none) ∧ s' <:+ s ∧
      ∀ b ∈ s'.head?, Begins c b := by
  induction s generalizing comment with
  | nil =>
    refine ⟨[], ?_, List.suffix_rfl, by simp⟩
    cases comment with
    | none => rfl
    | some comment => rw [consumeVoids, endComment_of_noHeaders h]
  | cons b s ih =>
    have hlift : ∀ comment, ∃ s', consumeVoids stale c comment s = (c, s', none) ∧
        s' <:+ b :: s ∧ ∀ b ∈ s'.head?, Begins c b := by
      intro comment
      obtain ⟨s', hs', hsuffix, hhead⟩ := ih comment
      exact ⟨s', hs', hsuffix.trans (List.suffix_cons b s), hhead⟩
    cases comment with
    | none =>
      rw [consumeVoids]
      split_ifs with hvoid hcomment
      · exact hlift none
      · exact hlift (some [b])
      · refine ⟨b :: s, rfl, List.suffix_rfl, fun b' hb' => ?_⟩
        obtain rfl : b = b' := Option.some.inj hb'
        exact ⟨Bool.eq_false_iff.2 hvoid, Bool.eq_false_iff.2 hcomment⟩
    | some comment =>
      rw [consumeVoids, endComment_of_noHeaders h]
      split_ifs
      · exact hlift none
      · exact hlift _

/-- A field without delimiters ends at the next one of the splits. -/
lemma readText_snd (escapeChar : Byte) (buf s : Bytes) :
    (readText c 0 escapeChar buf s).2 = s.dropWhile fun b => ! c.isVoid b := by
  induction s generalizing buf with
  | nil => rfl
  | cons b s ih =>
    have hdelim : ((0 : Byte) != 0 && isDelim 0 (some b)) = false := rfl
    have hzero : ((0 : Byte) == 0) = true := rfl
    rw [readText, hdelim, if_neg Bool.false_ne_true, hzero, Bool.true_and]
    cases hvoid : c.isVoid b with
    | true => simp [hvoid]
    | false => simpa [hvoid] using ih _

lemma dropWhile_append_rest (hrest : EndsRecord c rest) (mid : Bytes) :
    (mid ++ rest).dropWhile (fun b => ! c.isVoid b) =
      mid.dropWhile (fun b => ! c.isVoid b) ++ rest := by
  cases hdrop : mid.dropWhile fun b => ! c.isVoid b with
  | nil =>
    rw [List.dropWhile_eq_nil_iff] at hdrop
    rw [List.dropWhile_append_of_pos hdrop, List.nil_append]
    cases rest with
    | nil => rfl
    | cons b s =>
      have hb : c.inEventSplit b = true := hrest
      have hvoid : (! c.isVoid b) = false := by rw [isVoid, hb, Bool.or_true, Bool.not_true]
      rw [List.dropWhile_cons, hvoid, if_neg Bool.false_ne_true]
  | cons b text =>
    have hmem := congrArg List.length hdrop
    rw [List.dropWhile_append, hdrop]
    rfl

lemma skipSplit_append (hdisjoint : ∀ b, c.inFieldSplit b = true → c.inEventSplit b = false)
    (hrest : EndsRecord c rest) (b : Byte) (tail : Bytes) :
    ∃ tail', tail' <:+ tail ∧ c.skipSplit (b :: tail ++ rest) = tail' ++ rest := by
  rw [skipSplit]
  split_ifs
  · refine ⟨tail.dropWhile c.inFieldSplit, List.dropWhile_suffix _, ?_⟩
    show (tail ++ rest).dropWhile c.inFieldSplit = _
    rw [List.dropWhile_append]
    split_ifs with hnil
    · rw [List.isEmpty_iff] at hnil
      rw [hnil, List.nil_append]
      cases rest with
      | nil => rfl
      | cons b' s =>
        have hb' : c.inEventSplit b' = true := hrest
        have hfield : c.inFieldSplit b' = false := by
          by_contra hfb
          rw [hdisjoint b' (by simpa using hfb)] at hb'
          cases hb'
        rw [List.dropWhile_cons, hfield, if_neg Bool.false_ne_true]
    · rfl
  · exact ⟨tail, List.suffix_rfl, rfl⟩

variable (conv) in
/-- One field is read: the loop leaves off behind its text, or goes on there. -/
lemma readFields_cons (hdisjoint : ∀ b, c.inFieldSplit b = true → c.inEventSplit b = false)
    (hrest : EndsRecord c rest) {f : LogField} {fs : List LogField}
    (hf : f.logDelimStart = 0 ∧ f.logDelimEnd = 0) (e : Event φ δ χ θ) {b : Byte}
    (hb : c.inEventSplit b = false) (mid : Bytes) :
    ∃ tail, tail <:+ (b :: mid).dropWhile (fun b => ! c.isVoid b) ∧
      ((readFields conv c (f :: fs) e (b :: mid ++ rest)).2 = tail ++ rest ∨
        ∃ e', readFields conv c (f :: fs) e (b :: mid ++ rest) =
          readFields conv c fs e' (tail ++ rest)) := by
  have hfield : startField f (b :: mid ++ rest) = some (0, b :: mid ++ rest) := by
    rw [startField, if_pos hf.1, hf.2]
  have htext : (readContents c 0 f.logEscapeChar (b :: mid ++ rest)).2 =
      (b :: mid).dropWhile (fun b => ! c.isVoid b) ++ rest := by
    rw [← dropWhile_append_rest hrest]
    exact readText_snd f.logEscapeChar [] (b :: mid ++ rest)
  have hstop : ¬ ((b :: mid ++ rest).head?.all c.inEventSplit = true) := by
    simpa using hb
  rw [readFields, if_neg hstop, hfield]
  dsimp only
  rw [htext]
  generalize (b :: mid).dropWhile (fun b => ! c.isVoid b) = tail
  cases setText conv f (readContents c 0 f.logEscapeChar (b :: mid ++ rest)).1 e with
  | none => exact ⟨tail, List.suffix_rfl, Or.inl rfl⟩
  | some e' =>
    dsimp only
    split_ifs with hsplit
    · exact ⟨tail, List.suffix_rfl, Or.inl rfl⟩
    · cases tail with
      | nil =>
        -- behind the record there is no field delimiter
        refine absurd ?_ hsplit
        cases rest with
        | nil => rfl
        | cons b s =>
          have hb : c.inEventSplit b = true := hrest
          simp [hb]
      | cons b' tail =>
        obtain ⟨tail', htail', heq⟩ := skipSplit_append hdisjoint hrest b' tail
        rw [heq]
        exact ⟨tail', htail'.trans (List.suffix_cons b' tail), Or.inr ⟨e', rfl⟩⟩

variable (conv) in
/-- The loop over the fields of a record leaves off in the record. -/
lemma readFields_snd (hdisjoint : ∀ b, c.inFieldSplit b = true → c.inEventSplit b = false)
    (hrest : EndsRecord c rest) {fs : List LogField}
    (hfs : ∀ f ∈ fs, f.logDelimStart = 0 ∧ f.logDelimEnd = 0) (e : Event φ δ χ θ) (mid : Bytes) :
    ∃ mid', mid' <:+ mid ∧ (readFields conv c fs e (mid ++ rest)).2 = mid' ++ rest := by
  induction fs generalizing e mid with
  | nil => exact ⟨mid, List.suffix_rfl, rfl⟩
  | cons f fs ih =>
    by_cases hstop : (mid ++ rest).head?.all c.inEventSplit = true
    · rw [readFields, if_pos hstop]
      exact ⟨mid, List.suffix_rfl, rfl⟩
    · cases mid with
      | nil => exact absurd hrest hstop
      | cons b mid =>
        have hb : c.inEventSplit b = false := by simpa using hstop
        obtain ⟨tail, htail, hleft | ⟨e', heq⟩⟩ :=
          readFields_cons conv hdisjoint hrest (hfs f List.mem_cons_self) e hb mid
        · exact ⟨tail, htail.trans (List.dropWhile_suffix _), hleft⟩
        · obtain ⟨mid', hmid', hleft⟩ :=
            ih (fun g hg => hfs g (List.mem_cons_of_mem f hg)) e' tail
          rw [heq]
          exact ⟨mid', hmid'.trans (htail.trans (List.dropWhile_suffix _)), hleft⟩

variable (conv) in
/-- It goes behind the first character. -/
lemma readFields_snd_cons (hc : Plain c) (hrest : EndsRecord c rest) {fs : List LogField}
    (hfs : ∀ f ∈ fs, f.logDelimStart = 0 ∧ f.logDelimEnd = 0) (hne : fs ≠ [])
    (e : Event φ δ χ θ) {b : Byte} (hb : c.isVoid b = false) (mid : Bytes) :
    ∃ mid', mid' <:+ mid ∧ (readFields conv c fs e (b :: mid ++ rest)).2 = mid' ++ rest := by
  cases fs with
  | nil => exact absurd rfl hne
  | cons f fs =>
    have hevent : c.inEventSplit b = false := (Bool.or_eq_false_iff.1 hb).2
    have hdrop : (b :: mid).dropWhile (fun b => ! c.isVoid b) <:+ mid := by
      rw [List.dropWhile_cons, hb, Bool.not_false, if_pos rfl]
      exact List.dropWhile_suffix _
    obtain ⟨tail, htail, hleft | ⟨e', heq⟩⟩ :=
      readFields_cons conv hc.disjoint hrest (hfs f List.mem_cons_self) e hevent mid
    · exact ⟨tail, htail.trans hdrop, hleft⟩
    · obtain ⟨mid', hmid', hleft⟩ := readFields_snd conv hc.disjoint hrest
        (fun g hg => hfs g (List.mem_cons_of_mem f hg)) e' tail
      rw [heq]
      exact ⟨mid', hmid'.trans (htail.trans hdrop), hleft⟩

/-! ### How `read` goes on -/

lemma consumeVoids_begins {b : Byte} (hb : Begins c b) (s : Bytes) :
    consumeVoids stale c none (b :: s) = (c, b :: s, none) := by
  rw [consumeVoids, hb.1, if_neg Bool.false_ne_true, hb.2, if_neg Bool.false_ne_true]

lemma dropWhile_eq_rest (hrest : EndsRecord c rest) {mid : Bytes}
    (hmid : ∀ b ∈ mid, c.inEventSplit b = false) :
    (mid ++ rest).dropWhile (fun b => ! c.inEventSplit b) = rest := by
  rw [List.dropWhile_append_of_pos fun b hb => by rw [hmid b hb, Bool.not_false]]
  cases rest with
  | nil => rfl
  | cons b s =>
    have hb : c.inEventSplit b = true := hrest
    rw [List.dropWhile_cons, hb, Bool.not_true, if_neg Bool.false_ne_true]

variable (conv stale) in
/-- A record is read, or throws and leaves off behind its first character. -/
lemma read_record (hc : Plain c) (hrest : EndsRecord c rest) {b : Byte} (hb : Begins c b)
    (hmid : ∀ b' ∈ b :: mid, c.inEventSplit b' = false) :
    (∃ mid', mid' <:+ mid ∧ read conv stale c (b :: mid ++ rest) = (c, mid' ++ rest, .threw)) ∨
      ∃ e, read conv stale c (b :: mid ++ rest) =
        (c, rest.dropWhile c.inEventSplit, .event e) := by
  have hread : read conv stale c (b :: mid ++ rest) =
      match readFields conv c c.fields [] (b :: mid ++ rest) with
      | (none, s) => (c, s, .threw)
      | (some e, s) => (c, c.skipRecord s, .event e) := by
    rw [read, List.cons_append, consumeVoids_begins hb]
  rw [hread]
  cases hfields : c.fields with
  | nil =>
    refine Or.inr ⟨[], ?_⟩
    show (c, c.skipRecord (b :: mid ++ rest), _) = _
    rw [skipRecord, dropWhile_eq_rest hrest hmid]
  | cons f fs =>
    obtain ⟨mid', hmid', hleft⟩ := readFields_snd_cons conv hc hrest hc.noDelims
      (by rw [hfields]; exact List.cons_ne_nil f fs) [] hb.1 mid
    rw [hfields] at hleft
    cases hresult : readFields conv c (f :: fs) [] (b :: mid ++ rest) with
    | mk result s =>
      rw [hresult] at hleft
      obtain rfl : s = mid' ++ rest := hleft
      cases result with
      | none => exact Or.inl ⟨mid', hmid', rfl⟩
      | some e =>
        refine Or.inr ⟨e, ?_⟩
        show (c, c.skipRecord (mid' ++ rest), _) = _
        rw [skipRecord, dropWhile_eq_rest hrest fun b' hb' =>
          hmid b' (List.mem_cons_of_mem b (hmid'.subset hb'))]

/-- A record, and the rest of the stream behind it. -/
lemma exists_record {b : Byte} (hb : Begins c b) (t : Bytes) :
    ∃ record rest : Bytes, t = record ++ rest ∧ (∀ b' ∈ b :: record, c.inEventSplit b' = false) ∧
      EndsRecord c rest := by
  refine ⟨t.takeWhile fun b => ! c.inEventSplit b, t.dropWhile fun b => ! c.inEventSplit b,
    List.takeWhile_append_dropWhile.symm, ?_, ?_⟩
  · rw [List.forall_mem_cons]
    refine ⟨(Bool.or_eq_false_iff.1 hb.1).2, fun b' hb' => ?_⟩
    simpa using List.mem_takeWhile_imp hb'
  · have hhead := List.head?_dropWhile_not (fun b => ! c.inEventSplit b) t
    rw [EndsRecord]
    cases hdrop : t.dropWhile fun b => ! c.inEventSplit b with
    | nil => rfl
    | cons b' t' =>
      rw [hdrop] at hhead
      simpa using hhead

variable (conv stale) in
/-- The end of the stream is found after some calls. -/
lemma exists_eof (hc : Plain c) (s : Bytes) : ∃ n, .eof ∈ reads conv stale n c s := by
  induction hlen : s.length using Nat.strong_induction_on generalizing s with
  | _ m ih =>
    subst hlen
    obtain ⟨t, ht, hsuffix, hhead⟩ := consumeVoids_of_noHeaders stale hc.noHeaders none s
    cases t with
    | nil =>
      have hread : read conv stale c s = (c, [], .eof) := by rw [read, ht]
      exact ⟨1, by rw [reads, hread]; exact List.mem_cons_self⟩
    | cons b t =>
      have hb : Begins c b := hhead b rfl
      obtain ⟨record, rest, rfl, hrecord, hrest⟩ := exists_record hb t
      have hcongr : read conv stale c s = read conv stale c (b :: record ++ rest) :=
        read_congr (ht.trans (consumeVoids_begins hb _).symm)
      have hle := hsuffix.length_le
      rw [List.length_cons, List.length_append] at hle
      -- behind the call, the stream is shorter
      have hnext : ∃ s' r, read conv stale c s = (c, s', r) ∧ s'.length < s.length := by
        rw [hcongr]
        rcases read_record conv stale hc hrest hb hrecord with
          ⟨mid', hmid', hread⟩ | ⟨e, hread⟩
        · have hmid := hmid'.length_le
          exact ⟨_, _, hread, by rw [List.length_append]; omega⟩
        · have hdrop := (List.dropWhile_suffix (l := rest) c.inEventSplit).length_le
          exact ⟨_, _, hread, by omega⟩
      obtain ⟨s', r, hread, hlt⟩ := hnext
      obtain ⟨n, hn⟩ := ih s'.length hlt s' rfl
      exact ⟨n + 1, by rw [reads, hread]; exact List.mem_cons_of_mem _ hn⟩

variable (conv stale) in
/-- What is left of a record is read as records of its own. -/
lemma reads_left (hc : Plain c) (hrest : EndsRecord c rest)
    (hmid : ∀ b ∈ mid, c.inEventSplit b = false) (hvoid : ¬ VoidTail c mid) :
    ∃ l : List (ReadResult φ δ χ θ), l ≠ [] ∧ .eof ∉ l ∧ ∀ n,
      reads conv stale (l.length + n) c (mid ++ rest) = l ++ reads conv stale n c rest := by
  induction hlen : mid.length using Nat.strong_induction_on generalizing mid with
  | _ m ih =>
    subst hlen
    cases hdrop : mid.dropWhile c.inFieldSplit with
    | nil =>
      rw [VoidTail, hdrop] at hvoid
      exact absurd trivial hvoid
    | cons b text =>
      rw [VoidTail, hdrop, hc.noHeaders] at hvoid
      have hsuffix := List.dropWhile_suffix (l := mid) c.inFieldSplit
      rw [hdrop] at hsuffix
      have hnot : ∀ b' ∈ b :: text, c.inEventSplit b' = false := fun b' hb' =>
        hmid b' (hsuffix.subset hb')
      have hb : Begins c b := by
        refine ⟨not_isVoid (dropWhile_cons_head hdrop) (hnot b List.mem_cons_self), ?_⟩
        simpa using hvoid
      have hcongr : read conv stale c (mid ++ rest) = read conv stale c (b :: text ++ rest) :=
        read_congr (by rw [consumeVoids_skipFields, hdrop])
      have hle := hsuffix.length_le
      rw [List.length_cons] at hle
      rcases read_record conv stale hc hrest hb hnot with
        ⟨mid', hmid', hread⟩ | ⟨e, hread⟩
      · have hnot' : ∀ b' ∈ mid', c.inEventSplit b' = false := fun b' hb' =>
          hnot b' (List.mem_cons_of_mem b (hmid'.subset hb'))
        by_cases hvoid' : VoidTail c mid'
        · refine ⟨[.threw], List.cons_ne_nil _ _, by simp, fun n => ?_⟩
          rw [List.length_singleton, Nat.add_comm, reads, hcongr, hread]
          dsimp only
          rw [reads_congr (consumeVoids_voidTail hnot' hrest hvoid')]
          rfl
        · have hlt := hmid'.length_le
          obtain ⟨l, -, heof, hl⟩ := ih mid'.length (by omega) hnot' hvoid' rfl
          refine ⟨.threw :: l, List.cons_ne_nil _ _, by simpa using heof, fun n => ?_⟩
          rw [List.length_cons, Nat.succ_add, reads, hcongr, hread]
          dsimp only
          rw [hl, List.cons_append]
      · refine ⟨[.event e], List.cons_ne_nil _ _, by simp, fun n => ?_⟩
        rw [List.length_singleton, Nat.add_comm, reads, hcongr, hread]
        dsimp only
        rw [← reads_congr (consumeVoids_skipEvents rest)]
        rfl

lemma reads_take (m n : ℕ) :
    (reads conv stale (m + n) c s).take m = reads conv stale m c s := by
  induction m generalizing c s with
  | zero => rw [List.take_zero, reads]
  | succ m ih => rw [Nat.succ_add, reads, reads, List.take_succ_cons, ih]

/-- The remaining records give as many results as their own, and no more. -/
lemma not_contained (hc : Plain c) (hrest : EndsRecord c rest)
    (hmid : ∀ b ∈ mid, c.inEventSplit b = false) (hvoid : ¬ VoidTail c mid) :
    ¬ Contained conv stale c (mid ++ rest) rest := by
  intro hcontained
  obtain ⟨l, hne, heof, hl⟩ := reads_left conv stale hc hrest hmid hvoid
  -- the results would repeat, so that the end of the stream is not found
  have hnone : ∀ n, .eof ∉ reads conv stale n c rest := by
    intro n
    induction n using Nat.strong_induction_on with
    | _ n ih =>
      rcases Nat.lt_or_ge n l.length with hlt | hge
      · have htake : (reads conv stale (n + (l.length - n)) c rest).take n =
            reads conv stale n c rest := reads_take n (l.length - n)
        rw [Nat.add_sub_cancel' hlt.le] at htake
        have hlist := hl 0
        rw [hcontained, Nat.add_zero] at hlist
        rw [← htake, hlist]
        intro hmem
        rcases List.mem_append.1 (List.mem_of_mem_take hmem) with hmem | hmem
        · exact heof hmem
        · simp [reads] at hmem
      · obtain ⟨k, rfl⟩ := Nat.exists_eq_add_of_le hge
        have hlength := List.length_pos_of_ne_nil hne
        rw [← hcontained, hl, List.mem_append]
        rintro (hmem | hmem)
        · exact heof hmem
        · exact ih k (by omega) hmem
  obtain ⟨n, hn⟩ := exists_eof conv stale hc rest
  exact hnone n hn

variable (conv stale)

/-- A record throws.  The remaining records are read as if it were not there, if the stream is left
in front of field delimiters or a comment; with plain fields, only then. -/
theorem malformed_contained (hvoid : consumeVoids stale c none s = (c', record ++ rest, none))
    (hrecord : ∀ b ∈ record, c'.inEventSplit b = false) (hrest : EndsRecord c' rest)
    (hthrew : read conv stale c s = (c', left, .threw)) :
    ((∃ mid, mid <:+ record ∧ left = mid ++ rest ∧ VoidTail c' mid) →
        Contained conv stale c' left rest) ∧
      (Plain c' → Contained conv stale c' left rest →
        ∃ mid, mid <:+ record ∧ left = mid ++ rest ∧ VoidTail c' mid) := by
  constructor
  · rintro ⟨mid, hmid, rfl, htail⟩ n
    exact reads_congr (consumeVoids_voidTail (fun b hb => hrecord b (hmid.subset hb)) hrest htail) n
  · intro hplain hcontained
    have hleft : ∃ mid, mid <:+ record ∧ left = mid ++ rest := by
      rw [read, hvoid] at hthrew
      cases hrecord' : record ++ rest with
      | nil =>
        rw [hrecord'] at hthrew
        cases hthrew
      | cons b t =>
        rw [hrecord'] at hthrew
        obtain ⟨mid, hmid, hsnd⟩ := readFields_snd conv hplain.disjoint hrest
          hplain.noDelims [] record
        rw [hrecord'] at hsnd
        dsimp only at hthrew
        cases hresult : readFields conv c' c'.fields [] (b :: t) with
        | mk result s' =>
          rw [hresult] at hthrew hsnd
          cases result with
          | some e => cases hthrew
          | none =>
            obtain rfl : s' = left := congrArg (fun x => x.2.1) hthrew
            exact ⟨mid, hmid, hsnd⟩
    obtain ⟨mid, hmid, rfl⟩ := hleft
    refine ⟨mid, hmid, rfl, ?_⟩
    by_contra htail
    exact not_contained hplain hrest (fun b hb => hrecord b (hmid.subset hb)) htail hcontained

/-- Conversions that read decimal numbers, and copy every string. -/
def decimals : LogConversions Unit Unit Unit Unit where
  toConversions := { Event.noNumbers with
    toInt32 := fun s => (lexicalCast.readUnsigned 2147483648 s).map Int32.ofNat }
  addOffset _ _ := ()

/-- A codec with two fields of numbers. -/
def twoNumbers : LogCodec :=
  let field (name : String) (termRef : ℕ) : Bytes × LogField :=
    (ascii name, { logField := ascii name, logTerm := { termRef, termType := .int32 } })
  { fieldMap := [field "a" 1, field "b" 2], format := [0, 1] }

/-- The last field of the record is malformed. -/
theorem malformed_contained_last :
    let stale (_ : Bytes) : Bytes := []
    let rest := ascii "\n8 9\n"
    (reads decimals stale 3 twoNumbers (ascii "7 x\n8 9\n")).map ReadResult.terms =
        [none, some [1, 2], none] ∧
      (((∃ mid, mid <:+ ascii "7 x" ∧ rest = mid ++ rest ∧ VoidTail twoNumbers mid) →
          Contained decimals stale twoNumbers rest rest) ∧
        (Plain twoNumbers → Contained decimals stale twoNumbers rest rest →
          ∃ mid, mid <:+ ascii "7 x" ∧ rest = mid ++ rest ∧ VoidTail twoNumbers mid)) := by
  intro stale rest
  refine ⟨by decide +kernel, malformed_contained decimals stale
    (c := twoNumbers) (s := ascii "7 x\n8 9\n") ?_ ?_ ?_ ?_⟩
  · decide +kernel
  · decide +kernel
  · exact (by decide +kernel : rest.head?.all twoNumbers.inEventSplit = true)
  · rfl

/-- The first field of the record is malformed, and the second one is read as a record. -/
theorem malformed_contained_fails :
    let stale (_ : Bytes) : Bytes := []
    (reads decimals stale 4 twoNumbers (ascii "x 5\n7 8\n")).map ReadResult.terms =
        [none, some [1], some [1, 2], none] ∧
      (reads decimals stale 2 twoNumbers (ascii "7 8\n")).map ReadResult.terms =
        [some [1, 2], none] := by
  decide +kernel

end LogCodec

end PionCore.Platform
