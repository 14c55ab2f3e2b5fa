/-
# Escaped end delimiters

`LogField::write` puts the escape character in front of an end delimiter, and not in front of
itself.  A text that ends with the escape character escapes the delimiter that is to end the field,
and the fields behind it are read as its text (`readsBack_iff`).
-/
import PionCore.Lib.UTF8
import PionCore.Platform.LogWriter

namespace PionCore.Platform.LogCodec

open PionCore.Lib PionCore.Common

variable {φ δ χ θ : Type*} (print : LogPrinters φ δ χ θ) (conv : LogConversions φ δ χ θ)

/-- A field of a string type with both delimiters and another escape character, and a value of it:
valid UTF-8 without zero bytes, not empty and not the empty marker, and shorter than the buffer. -/
structure Escapable (f : LogField) (v : Bytes) : Prop where
  type : f.logTerm.termType ∈ [.shortString, .string, .longString]
  start : f.logDelimStart ≠ 0
  stop : f.logDelimEnd ≠ 0
  escape : f.logEscapeChar ≠ f.logDelimStart ∧ f.logEscapeChar ≠ f.logDelimEnd
  ne_nil : v ≠ []
  noZero : ∀ b ∈ v, b ≠ 0
  utf8 : ValidUTF8 v
  length : v.length < readBufferSize
  marker : v ≠ f.logEmptyVal

/-- What is written for the value is read as the value, up to the end delimiter and not further,
whatever follows it. -/
def ReadsBack (c : LogCodec) (f : LogField) (v : Bytes) : Prop :=
  ∃ text, f.write print (.blob v) = some text ∧ ∀ (e : Event φ δ χ θ) (after : Bytes),
    ∃ delimEnd s, startField f (text ++ after) = some (delimEnd, s) ∧
      (readContents c delimEnd f.logEscapeChar s).2 = after ∧
      setText conv f (readContents c delimEnd f.logEscapeChar s).1 e =
        some (e.insert f.logTerm.termRef (.blob v))

/-- What the buffer has of a written text when it is read up to its end.  Where a text is too long
for the buffer, an end delimiter in the rest of it ends the text too early, unless it is taken for
an escaped one. -/
def kept (f : LogField) (src : Bytes) : Option Bytes :=
  let buf := src.take readBufferSize
  let stops := (src.drop readBufferSize).count f.logDelimEnd
  if stops = 0 ∧ buf.getLast? ≠ some f.logEscapeChar then some buf
  else if stops = 1 ∧ buf.getLast? = some f.logEscapeChar then
    some (buf.dropLast ++ [f.logDelimEnd])
  else none

/-- The delimiters are characters of ASCII, and what the buffer has of the text is not the empty
marker and gives the value. -/
def Recovered (f : LogField) (v : Bytes) : Prop :=
  f.logDelimStart < 128 ∧ f.logDelimEnd < 128 ∧
    ∃ buf, kept f (f.blobText v) = some buf ∧ buf ≠ f.logEmptyVal ∧
      conv.makeUTF8Blob (if f.logUrlencode then urlDecode buf else buf) = some v

/-- An event with the value, and a codec that separates fields and events, for which all other
fields of the event can be read. -/
structure Surrounded (c : LogCodec) (f : LogField) (v : Bytes) (e : Event φ δ χ θ) : Prop where
  value : e.getPointer f.logTerm.termRef = some (.blob v)
  joins : 1 < c.fields.length → Joins c
  ends : EndsEvents c
  others : ∀ g ∈ c.fields, g ≠ f → FieldReadable print conv c g e
  begins : ∀ texts, writeFields print c e c.fields = some texts →
    ∃ b t, texts = b :: t ∧ Begins c b
  event : c.inEventSplit f.logDelimStart = false
  field : c.consumeDelims = true → c.inFieldSplit f.logDelimStart = false

variable {print conv} {c : LogCodec} {f : LogField} {v src after buf t : Bytes} {stop esc : Byte}

/-! ### The text in the buffer -/

/-- An escaped text that fits goes into the buffer. -/
lemma readText_fill (hne : f.logDelimEnd ≠ 0) (hascii : f.logDelimEnd < 128)
    (hescape : f.logEscapeChar ≠ f.logDelimEnd) (hlen : buf.length + src.length ≤ readBufferSize)
    (s : Bytes) : readText c f.logDelimEnd f.logEscapeChar buf (f.escape src ++ s) =
      readText c f.logDelimEnd f.logEscapeChar (buf ++ src) s := by
  have hzero : (f.logDelimEnd == 0) = false := beq_eq_false_iff_ne.2 hne
  induction src generalizing buf with
  | nil =>
    rw [List.append_nil]
    rfl
  | cons b src ih =>
    rw [List.length_cons] at hlen
    have hnext := @ih (buf ++ [b]) (by
      rw [List.length_append, List.length_singleton]
      omega)
    rw [List.append_assoc, List.singleton_append] at hnext
    rw [LogField.escape, List.flatMap_cons, ← LogField.escape, List.append_assoc]
    by_cases hb : b = f.logDelimEnd
    · subst hb
      rw [if_pos rfl, List.cons_append, List.singleton_append, readText, isDelim_ne hescape,
        if_neg Bool.false_ne_true, hzero, Bool.false_and, if_neg Bool.false_ne_true,
        if_pos (by omega), readText, isDelim_self hne hascii, if_pos rfl, List.getLast?_concat,
        if_pos rfl, List.dropLast_concat]
      exact hnext
    · rw [if_neg hb, List.singleton_append, readText, isDelim_ne hb, if_neg Bool.false_ne_true,
        hzero, Bool.false_and, if_neg Bool.false_ne_true, if_pos (by omega)]
      exact hnext

/-- In a full buffer nothing more comes, up to an end delimiter. -/
lemma readText_full (hne : stop ≠ 0) (hfull : readBufferSize ≤ buf.length) (ht : stop ∉ t)
    (s : Bytes) : readText c stop esc buf (t ++ s) = readText c stop esc buf s := by
  have hzero : (stop == 0) = false := beq_eq_false_iff_ne.2 hne
  induction t with
  | nil => rfl
  | cons b t ih =>
    rw [List.mem_cons, not_or] at ht
    rw [List.cons_append, readText, isDelim_ne (Ne.symm ht.1), if_neg Bool.false_ne_true, hzero,
      Bool.false_and, if_neg Bool.false_ne_true, if_neg (by omega)]
    exact ih ht.2

/-- An end delimiter that is not one of ASCII is never found. -/
lemma readText_all (hne : stop ≠ 0) (hascii : ¬ stop < 128) (s : Bytes) :
    (readText c stop esc buf s).2 = [] := by
  have hzero : (stop == 0) = false := beq_eq_false_iff_ne.2 hne
  have hnever : ∀ b : Byte, (stop != 0 && isDelim stop (some b)) = false := by
    intro b
    by_cases hb : b = stop
    · subst hb
      rw [isDelim, decide_eq_false hascii, Bool.and_false, Bool.and_false]
    · exact isDelim_ne hb
  induction s generalizing buf with
  | nil => rfl
  | cons b s ih =>
    rw [readText, hnever, if_neg Bool.false_ne_true, hzero, Bool.false_and,
      if_neg Bool.false_ne_true]
    exact ih

/-- An end delimiter that ends the text, or is taken for an escaped one. -/
lemma readText_stop (hne : stop ≠ 0) (hascii : stop < 128) (s : Bytes) :
    readText c stop esc buf (stop :: s) =
      if buf.getLast? = some esc then readText c stop esc (buf.dropLast ++ [stop]) s
      else (buf, s) := by
  rw [readText, isDelim_self hne hascii, if_pos rfl]

/-- Without an end delimiter, a text ends in front of a separator, or at the end of the stream. -/
lemma readText_undelimited (c : LogCodec) (esc : Byte) (buf s : Bytes) :
    (readText c 0 esc buf s).2.head?.all c.isVoid = true := by
  induction s generalizing buf with
  | nil => rfl
  | cons b s ih =>
    have hdelim : ((0 : Byte) != 0 && isDelim 0 (some b)) = false := rfl
    have hzero : ((0 : Byte) == 0) = true := rfl
    rw [readText, hdelim, if_neg Bool.false_ne_true, hzero, Bool.true_and]
    split_ifs with hvoid
    · exact hvoid
    · exact ih _
    · exact ih _

/-- What does not fit is skipped. -/
lemma readText_rest (hne : f.logDelimEnd ≠ 0) (hascii : f.logDelimEnd < 128)
    (hfull : t ≠ [] → readBufferSize ≤ buf.length) (ht : f.logDelimEnd ∉ t) (after : Bytes) :
    readText c f.logDelimEnd f.logEscapeChar buf (f.escape t ++ f.logDelimEnd :: after) =
      if buf.getLast? = some f.logEscapeChar then
        readText c f.logDelimEnd f.logEscapeChar (buf.dropLast ++ [f.logDelimEnd]) after
      else (buf, after) := by
  rw [escape_eq ht]
  cases t with
  | nil => exact readText_stop hne hascii after
  | cons b t =>
    rw [readText_full hne (hfull (List.cons_ne_nil b t)) ht, readText_stop hne hascii]

/-- An end delimiter in what does not fit. -/
lemma readText_rest_stop (hne : f.logDelimEnd ≠ 0) (hascii : f.logDelimEnd < 128)
    (hescape : f.logEscapeChar ≠ f.logDelimEnd) (hfull : readBufferSize ≤ buf.length)
    (ht : f.logDelimEnd ∉ t) (s after : Bytes) :
    readText c f.logDelimEnd f.logEscapeChar buf
        (f.escape (t ++ f.logDelimEnd :: s) ++ f.logDelimEnd :: after) =
      if buf.getLast? = some f.logEscapeChar then
        readText c f.logDelimEnd f.logEscapeChar (buf.dropLast ++ [f.logDelimEnd])
          (f.escape s ++ f.logDelimEnd :: after)
      else (buf, f.escape s ++ f.logDelimEnd :: after) := by
  have hsplit : f.escape (t ++ f.logDelimEnd :: s) ++ f.logDelimEnd :: after =
      (t ++ [f.logEscapeChar]) ++ f.logDelimEnd :: (f.escape s ++ f.logDelimEnd :: after) := by
    rw [LogField.escape, List.flatMap_append, ← LogField.escape, escape_eq ht, List.flatMap_cons,
      if_pos rfl, ← LogField.escape]
    simp
  have hnot : f.logDelimEnd ∉ t ++ [f.logEscapeChar] := by
    rw [List.mem_append, List.mem_singleton, not_or]
    exact ⟨ht, Ne.symm hescape⟩
  rw [hsplit, readText_full hne hfull hnot, readText_stop hne hascii]

lemma length_dropLast_concat (h : buf ≠ []) : (buf.dropLast ++ [stop]).length = buf.length := by
  rw [List.length_append, List.length_dropLast, List.length_singleton]
  have := List.length_pos_iff.2 h
  omega

lemma escape_cons_ne (s after : Bytes) : f.escape s ++ f.logDelimEnd :: after ≠ after := by
  intro h
  have hlength := congrArg List.length h
  rw [List.length_append, List.length_cons] at hlength
  omega

/-- Of a written text, what fits goes into the buffer first. -/
lemma readText_written (hne : f.logDelimEnd ≠ 0) (hascii : f.logDelimEnd < 128)
    (hescape : f.logEscapeChar ≠ f.logDelimEnd) (src after : Bytes) :
    readText c f.logDelimEnd f.logEscapeChar [] (f.escape src ++ f.logDelimEnd :: after) =
      readText c f.logDelimEnd f.logEscapeChar (src.take readBufferSize)
        (f.escape (src.drop readBufferSize) ++ f.logDelimEnd :: after) := by
  have hsplit : f.escape src =
      f.escape (src.take readBufferSize) ++ f.escape (src.drop readBufferSize) := by
    rw [LogField.escape, LogField.escape, LogField.escape, ← List.flatMap_append,
      List.take_append_drop]
  rw [hsplit, List.append_assoc, readText_fill hne hascii hescape, List.nil_append]
  rw [List.length_nil, Nat.zero_add]
  exact List.length_take_le _ _

lemma getLast?_ne_escape (hescape : f.logEscapeChar ≠ f.logDelimEnd) (l : Bytes) :
    (l ++ [f.logDelimEnd]).getLast? ≠ some f.logEscapeChar := by
  rw [List.getLast?_concat]
  exact fun h => hescape (Option.some.inj h).symm

/-- A text is read with what is kept of it; or, with some text behind it, not up to its end. -/
lemma readText_kept (hne : f.logDelimEnd ≠ 0) (hascii : f.logDelimEnd < 128)
    (hescape : f.logEscapeChar ≠ f.logDelimEnd) (src : Bytes) :
    match kept f src with
    | some buf => ∀ after, readText c f.logDelimEnd f.logEscapeChar []
        (f.escape src ++ f.logDelimEnd :: after) = (buf, after)
    | none => ∃ after, (readText c f.logDelimEnd f.logEscapeChar []
        (f.escape src ++ f.logDelimEnd :: after)).2 ≠ after := by
  obtain ⟨buf, hbuf⟩ : ∃ l, l = src.take readBufferSize := ⟨_, rfl⟩
  obtain ⟨rest, hrest⟩ : ∃ l, l = src.drop readBufferSize := ⟨_, rfl⟩
  have hfill : ∀ after, readText c f.logDelimEnd f.logEscapeChar []
      (f.escape src ++ f.logDelimEnd :: after) =
      readText c f.logDelimEnd f.logEscapeChar buf (f.escape rest ++ f.logDelimEnd :: after) := by
    intro after
    rw [hbuf, hrest]
    exact readText_written hne hascii hescape src after
  have hfull : rest ≠ [] → readBufferSize ≤ buf.length := by
    intro h
    rw [hbuf, List.length_take]
    rw [hrest, Ne, List.drop_eq_nil_iff] at h
    omega
  have hlast := getLast?_ne_escape hescape
  rw [kept, ← hbuf, ← hrest]
  by_cases hstop : f.logDelimEnd ∈ rest
  · -- the first end delimiter in what does not fit
    obtain ⟨t, s, hts, ht⟩ := List.eq_append_cons_of_mem hstop
    have hcount : rest.count f.logDelimEnd = s.count f.logDelimEnd + 1 := by
      rw [hts, List.count_append, List.count_cons_self, List.count_eq_zero.2 ht, Nat.zero_add]
    have hlong := hfull (List.ne_nil_of_mem hstop)
    have hbufne : buf ≠ [] := by
      rintro rfl
      exact absurd hlong (by decide)
    have hread : ∀ after, readText c f.logDelimEnd f.logEscapeChar []
        (f.escape src ++ f.logDelimEnd :: after) =
        if buf.getLast? = some f.logEscapeChar then
          readText c f.logDelimEnd f.logEscapeChar (buf.dropLast ++ [f.logDelimEnd])
            (f.escape s ++ f.logDelimEnd :: after)
        else (buf, f.escape s ++ f.logDelimEnd :: after) := by
      intro after
      rw [hfill, hts]
      exact readText_rest_stop hne hascii hescape hlong ht s after
    rw [if_neg (by omega), hcount]
    by_cases hesc : buf.getLast? = some f.logEscapeChar
    · -- it is taken for an escaped one, and the buffer stays full
      by_cases hmore : f.logDelimEnd ∈ s
      · obtain ⟨t', s', hts', ht'⟩ := List.eq_append_cons_of_mem hmore
        have hpos : 0 < s.count f.logDelimEnd := List.count_pos_iff.2 hmore
        rw [if_neg (by omega)]
        refine ⟨[], ?_⟩
        rw [hread, if_pos hesc, hts', readText_rest_stop hne hascii hescape
          (by rw [length_dropLast_concat hbufne]; exact hlong) ht', if_neg (hlast _)]
        exact escape_cons_ne s' []
      · rw [if_pos ⟨by rw [List.count_eq_zero.2 hmore], hesc⟩]
        intro after
        rw [hread, if_pos hesc, readText_rest hne hascii (fun _ => by
          rw [length_dropLast_concat hbufne]
          exact hlong) hmore, if_neg (hlast _)]
    · -- it ends the text
      rw [if_neg (fun h => hesc h.2)]
      refine ⟨[], ?_⟩
      rw [hread, if_neg hesc]
      exact escape_cons_ne s []
  · have hcount : rest.count f.logDelimEnd = 0 := List.count_eq_zero.2 hstop
    have hread := fun after => (hfill after).trans
      (readText_rest hne hascii hfull hstop after)
    rw [hcount]
    by_cases hesc : buf.getLast? = some f.logEscapeChar
    · -- the delimiter at the end is escaped, and a second one ends the text
      rw [if_neg (fun h => h.2 hesc), if_neg (by simp)]
      refine ⟨[f.logDelimEnd], ?_⟩
      rw [hread, if_pos hesc, readText_stop hne hascii, if_neg (hlast _)]
      exact (List.cons_ne_nil _ _).symm
    · rw [if_pos ⟨rfl, hesc⟩]
      intro after
      rw [hread, if_neg hesc]

/-! ### The value -/

lemma urlEncode_noZero {b : Byte} (h : b ∈ urlEncode v) : b ≠ 0 := by
  have hdigit : ∀ n < 256, upperDigit (UInt8.ofNat n / 16) ≠ 0 ∧
      upperDigit (UInt8.ofNat n % 16) ≠ 0 := by
    decide +kernel
  induction v with
  | nil => cases h
  | cons a v ih =>
    have ha := hdigit a.toNat a.toNat_lt
    rw [UInt8.ofNat_toNat] at ha
    rw [urlEncode] at h
    split_ifs at h with hurl
    · rcases List.mem_cons.1 h with rfl | h
      · rintro rfl
        exact absurd hurl (by decide +kernel)
      · exact ih h
    · simp only [List.mem_cons] at h
      rcases h with rfl | rfl | rfl | h
      · decide
      · exact ha.1
      · exact ha.2
      · exact ih h

lemma Escapable.blobText_noZero (h : Escapable f v) : ∀ b ∈ f.blobText v, b ≠ 0 := by
  rw [LogField.blobText]
  split_ifs
  · exact fun b hb => urlEncode_noZero hb
  · exact h.noZero

lemma Escapable.blobText_ne_nil (h : Escapable f v) : f.blobText v ≠ [] := by
  intro hnil
  have hle := length_le_blobText f h.noZero
  rw [hnil] at hle
  exact h.ne_nil (List.length_eq_zero_iff.1 (Nat.le_zero.1 hle))

lemma Escapable.oss_eq (h : Escapable f v) :
    f.oss print (.blob v) = some (f.blobText v) := by
  obtain htype | htype | htype : f.logTerm.termType = .shortString ∨
      f.logTerm.termType = .string ∨ f.logTerm.termType = .longString := by
    simpa using h.type
  all_goals simp only [LogField.oss, htype]

lemma Escapable.write_eq (h : Escapable f v) : f.write print (.blob v) =
    some (f.logDelimStart :: (f.escape (f.blobText v) ++ [f.logDelimEnd])) := by
  rw [LogField.write, h.oss_eq, Option.map_some, if_neg h.blobText_ne_nil, LogField.delim,
    LogField.delim, if_neg h.start, if_neg h.stop, List.append_assoc]
  rfl

lemma Escapable.read_eq (h : Escapable f v) (buf : Bytes) (e : Event φ δ χ θ) :
    f.read conv buf e = (conv.makeUTF8Blob (if f.logUrlencode then urlDecode buf else buf)).map
      fun w => e.insert f.logTerm.termRef (.blob w) := by
  obtain htype | htype | htype : f.logTerm.termType = .shortString ∨
      f.logTerm.termType = .string ∨ f.logTerm.termType = .longString := by
    simpa using h.type
  all_goals
    simp only [LogField.read, htype, Event.setString, Event.setX, Option.map_map]
    rfl

/-- What is kept of a text has no zero bytes, and is not empty. -/
lemma kept_noZero (hne : f.logDelimEnd ≠ 0) (hsrc : src ≠ []) (hzero : ∀ b ∈ src, b ≠ 0)
    (h : kept f src = some buf) : buf ≠ [] ∧ ∀ b ∈ buf, b ≠ 0 := by
  have htake : src.take readBufferSize ≠ [] := by
    rw [Ne, List.take_eq_nil_iff, not_or]
    exact ⟨by decide, hsrc⟩
  have hmem : ∀ b ∈ src.take readBufferSize, b ≠ 0 := fun b hb => hzero b (List.mem_of_mem_take hb)
  rw [kept] at h
  split_ifs at h
  · obtain rfl := Option.some.inj h
    exact ⟨htake, hmem⟩
  · obtain rfl := Option.some.inj h
    refine ⟨by simp, fun b hb => ?_⟩
    rcases List.mem_append.1 hb with hb | hb
    · exact hmem b (List.mem_of_mem_dropLast hb)
    · rw [List.mem_singleton.1 hb]
      exact hne

/-- The text in the buffer is set as the value. -/
lemma Escapable.setText_iff (conv : LogConversions φ δ χ θ) (h : Escapable f v)
    (hne : buf ≠ []) (hzero : ∀ b ∈ buf, b ≠ 0) :
    (∀ e : Event φ δ χ θ,
      setText conv f buf e = some (e.insert f.logTerm.termRef (.blob v))) ↔
    buf ≠ f.logEmptyVal ∧
      conv.makeUTF8Blob (if f.logUrlencode then urlDecode buf else buf) = some v := by
  have hinsert : ∀ w, Event.insert ([] : Event φ δ χ θ) f.logTerm.termRef (.blob w) =
      [(f.logTerm.termRef, .blob w)] := fun _ => rfl
  constructor
  · intro hset
    have hempty := hset []
    rw [setText, cString_eq hzero, hinsert] at hempty
    by_cases hmarker : buf = f.logEmptyVal
    · rw [if_pos (Or.inr hmarker)] at hempty
      cases hempty
    · rw [if_neg (not_or.2 ⟨hne, hmarker⟩), h.read_eq] at hempty
      obtain ⟨w, hw, heq⟩ := Option.map_eq_some_iff.1 hempty
      rw [hinsert] at heq
      obtain rfl : w = v := by simpa using heq
      exact ⟨hmarker, hw⟩
  · rintro ⟨hmarker, hblob⟩ e
    rw [setText, cString_eq hzero, if_neg (not_or.2 ⟨hne, hmarker⟩), h.read_eq, hblob]
    rfl

/-! ### What is read -/

lemma readContents_cons {b : Byte} (s : Bytes) :
    readContents c stop esc (b :: s) = readText c stop esc [] (b :: s) := rfl

lemma readContents_escape (s after : Bytes) :
    readContents c stop esc (f.escape s ++ stop :: after) =
      readText c stop esc [] (f.escape s ++ stop :: after) := by
  cases hlist : f.escape s ++ stop :: after with
  | nil => exact absurd (List.append_eq_nil_iff.1 hlist).2 (List.cons_ne_nil _ _)
  | cons b t => rfl

/-- A start delimiter that is not one of ASCII is not found. -/
lemma not_readsBack_of_start (h : Escapable f v) (hascii : ¬ f.logDelimStart < 128) :
    ¬ ReadsBack print conv c f v := by
  rintro ⟨text, htext, hread⟩
  obtain rfl := Option.some.inj (h.write_eq.symm.trans htext)
  -- the start delimiter itself follows
  obtain ⟨delimEnd, s, hstart, hrest, hset⟩ := hread [] [f.logDelimStart]
  have hdelim : isDelim f.logDelimStart (some f.logDelimStart) = false := by
    rw [isDelim, decide_eq_false hascii, Bool.and_false]
  rw [startField, if_neg h.start, List.cons_append, List.head?_cons, hdelim,
    if_neg Bool.false_ne_true] at hstart
  split_ifs at hstart
  obtain ⟨rfl, rfl⟩ := Prod.mk.inj (Option.some.inj hstart)
  rw [readContents_cons] at hrest hset
  by_cases hvoid : c.isVoid f.logDelimStart = true
  · -- the field is empty
    have hread : readText c 0 f.logEscapeChar [] (f.logDelimStart ::
        (f.escape (f.blobText v) ++ [f.logDelimEnd] ++ [f.logDelimStart])) =
        ([], f.logDelimStart ::
          (f.escape (f.blobText v) ++ [f.logDelimEnd] ++ [f.logDelimStart])) := by
      rw [readText, if_neg (by simp), hvoid, if_pos (by decide)]
    rw [hread] at hset
    cases hset
  · have hhead := readText_undelimited c f.logEscapeChar []
      (f.logDelimStart :: (f.escape (f.blobText v) ++ [f.logDelimEnd] ++ [f.logDelimStart]))
    rw [hrest] at hhead
    exact hvoid hhead

/-- The value is read back, just when it is recovered. -/
lemma Escapable.readsBack_iff_recovered (h : Escapable f v) :
    ReadsBack print conv c f v ↔ Recovered conv f v := by
  by_cases hstart : f.logDelimStart < 128
  swap
  · exact iff_of_false (not_readsBack_of_start h hstart) fun hrec => hstart hrec.1
  have hbegin : ∀ after, startField f
      (f.logDelimStart :: (f.escape (f.blobText v) ++ [f.logDelimEnd]) ++ after) =
        some (f.logDelimEnd, f.escape (f.blobText v) ++ f.logDelimEnd :: after) := by
    intro after
    have hdelim : isDelim f.logDelimStart (some f.logDelimStart) = true := by
      simp [isDelim, hstart]
    rw [startField, if_neg h.start, List.cons_append, List.head?_cons, hdelim, if_pos rfl,
      List.tail_cons, List.append_assoc]
    rfl
  by_cases hstop : f.logDelimEnd < 128
  swap
  · -- the end is never found, so that a character behind the field is taken for its text
    refine iff_of_false ?_ fun hrec => hstop hrec.2.1
    rintro ⟨text, htext, hread⟩
    obtain rfl := Option.some.inj (h.write_eq.symm.trans htext)
    obtain ⟨delimEnd, s, hs, hrest, -⟩ := hread [] [0]
    obtain ⟨rfl, rfl⟩ := Prod.mk.inj (Option.some.inj ((hbegin [0]).symm.trans hs))
    rw [readContents_escape, readText_all h.stop hstop] at hrest
    cases hrest
  have hkept := readText_kept (c := c) h.stop hstop h.escape.2 (f.blobText v)
  rw [Recovered, and_iff_right hstart, and_iff_right hstop]
  cases hbuf : kept f (f.blobText v) with
  | none =>
    rw [hbuf] at hkept
    obtain ⟨after, hafter⟩ := hkept
    refine iff_of_false ?_ (by simp)
    rintro ⟨text, htext, hread⟩
    obtain rfl := Option.some.inj (h.write_eq.symm.trans htext)
    obtain ⟨delimEnd, s, hs, hrest, -⟩ := hread [] after
    obtain ⟨rfl, rfl⟩ := Prod.mk.inj (Option.some.inj ((hbegin after).symm.trans hs))
    rw [readContents_escape] at hrest
    exact hafter hrest
  | some buf =>
    rw [hbuf] at hkept
    obtain ⟨hne, hzero⟩ := kept_noZero h.stop h.blobText_ne_nil h.blobText_noZero hbuf
    have hset := h.setText_iff conv hne hzero
    constructor
    · rintro ⟨text, htext, hread⟩
      obtain rfl := Option.some.inj (h.write_eq.symm.trans htext)
      refine ⟨buf, rfl, hset.1 fun e => ?_⟩
      obtain ⟨delimEnd, s, hs, -, hvalue⟩ := hread e []
      obtain ⟨rfl, rfl⟩ := Prod.mk.inj (Option.some.inj ((hbegin []).symm.trans hs))
      rw [readContents_escape, hkept] at hvalue
      exact hvalue
    · rintro ⟨buf', hbuf', hvalue⟩
      obtain rfl := Option.some.inj hbuf'
      refine ⟨_, h.write_eq, fun e after => ⟨_, _, hbegin after, ?_, ?_⟩⟩
      · rw [readContents_escape, hkept]
      · rw [readContents_escape, hkept]
        exact hset.2 hvalue e

/-! ### Texts that fit -/

lemma kept_eq (hlength : src.length ≤ readBufferSize) :
    kept f src = if src.getLast? ≠ some f.logEscapeChar then some src else none := by
  rw [kept, List.take_of_length_le hlength, List.drop_eq_nil_of_le hlength, List.count_nil]
  by_cases hlast : src.getLast? = some f.logEscapeChar
  · rw [if_neg (fun h => h.2 hlast), if_neg (fun h => Nat.zero_ne_one h.1),
      if_neg (not_not.2 hlast)]
  · rw [if_pos ⟨rfl, hlast⟩, if_pos hlast]

/-- A value that is not encoded is recovered, just when it does not end with the escape
character. -/
lemma Escapable.recovered_iff (h : Escapable f v) (hplain : f.logUrlencode = false)
    (hutf8 : conv.makeUTF8Blob v = some v) : Recovered conv f v ↔
      f.logDelimStart < 128 ∧ f.logDelimEnd < 128 ∧ v.getLast? ≠ some f.logEscapeChar := by
  have htext : f.blobText v = v := if_neg (by rw [hplain]; exact Bool.false_ne_true)
  rw [Recovered, htext, kept_eq h.length.le, hplain]
  refine and_congr_right fun _ => and_congr_right fun _ => ?_
  constructor
  · rintro ⟨buf, hbuf, -⟩
    intro hlast
    rw [if_neg (not_not.2 hlast)] at hbuf
    cases hbuf
  · intro hlast
    exact ⟨v, if_pos hlast, h.marker, hutf8⟩

/-- The field is one that is read back with its line. -/
lemma Surrounded.eventReadable {e : Event φ δ χ θ} (hs : Surrounded print conv c f v e)
    (h : Escapable f v) (hutf8 : conv.makeUTF8Blob v = some v) (hstart : f.logDelimStart < 128)
    (hstop : f.logDelimEnd < 128) (hlast : (f.blobText v).getLast? ≠ some f.logEscapeChar)
    (hlength : (f.blobText v).length ≤ readBufferSize) (hmarker : f.blobText v ≠ f.logEmptyVal) :
    EventReadable print conv c e := by
  refine ⟨fun g hg => ?_, hs.begins⟩
  by_cases hgf : g = f
  swap
  · exact hs.others g hg hgf
  subst hgf
  rw [FieldReadable, hs.value]
  refine ⟨?_, g.blobText v, h.oss_eq, h.blobText_ne_nil, hmarker, h.blobText_noZero, hlength,
    Or.inr ⟨⟨h.start, hstart⟩, ⟨h.stop, hstop⟩, hs.event, hs.field, hlast,
      fun _ => h.escape.2⟩⟩
  obtain htype | htype | htype : g.logTerm.termType = .shortString ∨
      g.logTerm.termType = .string ∨ g.logTerm.termType = .longString := by
    simpa using h.type
  all_goals
    simp only [IntegerOrString, htype]
    exact ⟨h.noZero, hutf8⟩

/-- A value is read back as it was, up to its end delimiter and not further, just when the
delimiters are characters of ASCII and the written text does not end with the escape character (and,
if it is encoded, is not the empty marker and fits into the buffer).  Then a line of a codec with
its separators is read back. -/
theorem readsBack_iff (hutf8 : ∀ s, ValidUTF8 s → conv.makeUTF8Blob s = some s)
    (h : Escapable f v) (print : LogPrinters φ δ χ θ) (c : LogCodec) :
    (ReadsBack print conv c f v ↔ Recovered conv f v) ∧
    (f.logUrlencode = false → (ReadsBack print conv c f v ↔
      f.logDelimStart < 128 ∧ f.logDelimEnd < 128 ∧ v.getLast? ≠ some f.logEscapeChar)) ∧
    ∀ e, PrintsBack conv → Surrounded print conv c f v e → f.logDelimStart < 128 →
      f.logDelimEnd < 128 → (f.blobText v).getLast? ≠ some f.logEscapeChar →
      (f.blobText v).length ≤ readBufferSize → f.blobText v ≠ f.logEmptyVal →
      ∃ texts, writeFields print c e c.fields = some texts ∧ ∀ stale s,
        read conv stale c (texts ++ c.eventJoin ++ s) =
          (c, (c.eventJoin ++ s).dropWhile c.inEventSplit, .event (restrict c e)) := by
  refine ⟨h.readsBack_iff_recovered, fun hplain => ?_, ?_⟩
  · rw [h.readsBack_iff_recovered, h.recovered_iff hplain (hutf8 v h.utf8)]
  · intro e hconv hs hstart hstop hlast hlength hmarker
    have he := hs.eventReadable h (hutf8 v h.utf8) hstart hstop hlast hlength hmarker
    obtain ⟨texts, htexts, -⟩ := read_line (fun _ => []) hconv hs.joins hs.ends he
    refine ⟨texts, htexts, fun stale s => ?_⟩
    obtain ⟨texts', htexts', hread⟩ := read_line stale hconv hs.joins hs.ends he
    obtain rfl := Option.some.inj (htexts.symm.trans htexts')
    exact hread s

lemma escapable_quotedField {v : Bytes} (hne : v ≠ []) (hzero : ∀ b ∈ v, b ≠ 0 ∧ b < 128)
    (hlength : v.length < readBufferSize) : Escapable quotedField v where
  type := by decide
  start := by decide
  stop := by decide
  escape := by decide
  ne_nil := hne
  noZero b hb := (hzero b hb).1
  utf8 := ValidUTF8.of_ascii fun b hb => (hzero b hb).2
  length := hlength
  marker := hne

/-- A value with a delimiter and with the escape character. -/
theorem readsBack_iff_quotation :
    (ReadsBack noPrinters signedDecimals quoted quotedField (ascii "a\\\"b") ↔
      Recovered signedDecimals quotedField (ascii "a\\\"b")) ∧
    (quotedField.logUrlencode = false →
      (ReadsBack noPrinters signedDecimals quoted quotedField (ascii "a\\\"b") ↔
        quotedField.logDelimStart < 128 ∧ quotedField.logDelimEnd < 128 ∧
          (ascii "a\\\"b").getLast? ≠ some quotedField.logEscapeChar)) :=
  have hutf8 : ∀ s, ValidUTF8 s → signedDecimals.makeUTF8Blob s = some s := fun _ _ => rfl
  have h := readsBack_iff hutf8 (escapable_quotedField (v := ascii "a\\\"b") (by decide)
    (by decide +kernel) (by decide +kernel)) noPrinters quoted
  ⟨h.1, h.2.1⟩

/-- A codec of two strings in quotes. -/
def twoQuoted : LogCodec :=
  { fieldMap := [(ascii "b", quotedField),
      (ascii "c", { quotedField with
        logField := ascii "c"
        logTerm := { termId := ascii "w", termRef := 3, termType := .string } })]
    format := [0, 1] }

/-- A value ends with the escape character: the delimiter behind it is read as a part of the value,
and the second field is lost. -/
theorem not_readsBack :
    writeFields noPrinters twoQuoted [(2, .blob (ascii "a\\")), (3, .blob (ascii "b"))]
        twoQuoted.fields = some (ascii "\"a\\\" \"b\"") ∧
      (read signedDecimals (fun _ => []) twoQuoted (ascii "\"a\\\" \"b\"\n")).2.2 =
        .event [(2, .blob (ascii "a\" "))] ∧
      Escapable quotedField (ascii "a\\") ∧
      ¬ ReadsBack noPrinters signedDecimals twoQuoted quotedField (ascii "a\\") := by
  have hescapable : Escapable quotedField (ascii "a\\") :=
    escapable_quotedField (by decide) (by decide +kernel) (by decide +kernel)
  refine ⟨by decide +kernel, ?_, hescapable, fun h => ?_⟩
  · rfl
  · have hrec := hescapable.readsBack_iff_recovered.1 h
    exact ((hescapable.recovered_iff rfl rfl).1 hrec).2.2 (by decide)

end PionCore.Platform.LogCodec
