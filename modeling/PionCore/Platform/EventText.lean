/-
# The text of a value

`Event::write` prints a value, and `Event::set` reads a text.  Both decide by the type of the term
what they do.  A number is read back as it was; a string is printed up to its first zero byte only,
so that it comes back just when it has none (`survivesText_iff`).
-/
import PionCore.Lib.UTF8
import PionCore.Platform.LogWriter

namespace PionCore.Platform

open PionCore.Lib

variable {φ δ χ θ : Type*}

/-- `Event::write`: both to a stream and to a string, which print floating point numbers in their
own ways.  A value of another kind and a type that cannot be printed throw. -/
def Event.write (print : LogPrinters φ δ χ θ) (value : ParameterValue φ δ χ θ) (t : Term) :
    Option Bytes :=
  match t.termType, value with
  | .int8, .int32 v | .int16, .int32 v | .int32, .int32 v => some (decimal v.toInt)
  | .uint8, .uint32 v | .uint16, .uint32 v | .uint32, .uint32 v => some (numeral 10 v.toNat)
  | .int64, .int64 v => some (decimal v.toInt)
  | .uint64, .uint64 v => some (numeral 10 v.toNat)
  | .float, .float v => some (print.ofFloat v)
  | .double, .double v => some (print.ofDouble v)
  | .longDouble, .longDouble v => some (print.ofLongDouble v)
  | .shortString, .blob v | .string, .blob v | .longString, .blob v | .char, .blob v
  | .blob, .blob v | .zblob, .blob v => some (LogCodec.cString v)
  | .dateTime, .dateTime v | .date, .dateTime v | .time, .dateTime v =>
    some (print.ofDateTime t.termFormat v)
  | _, _ => none

namespace EventText

/-- A value of an integer, string, CHAR, BLOB or ZBLOB type that is the one of the term.  Strings
are valid UTF-8, and a CHAR is not longer than the size of the term. -/
def Typed (t : Term) (value : ParameterValue φ δ χ θ) : Prop :=
  match t.termType, value with
  | .int8, .int32 _ | .int16, .int32 _ | .int32, .int32 _ | .int64, .int64 _ => True
  | .uint8, .uint32 _ | .uint16, .uint32 _ | .uint32, .uint32 _ | .uint64, .uint64 _ => True
  | .shortString, .blob v | .string, .blob v | .longString, .blob v => ValidUTF8 v
  | .char, .blob v => ValidUTF8 v ∧ v.length ≤ t.termSize
  | .blob, .blob _ | .zblob, .blob _ => True
  | _, _ => False

/-- A string has no zero byte. -/
def NoZeroByte : ParameterValue φ δ χ θ → Prop
  | .blob v => ∀ b ∈ v, b ≠ 0
  | _ => True

/-- The printed text of the value sets it in a new event. -/
def SurvivesText (conv : LogConversions φ δ χ θ) (print : LogPrinters φ δ χ θ) (t : Term)
    (value : ParameterValue φ δ χ θ) : Prop :=
  ∃ text, Event.write print value t = some text ∧
    Event.set conv.toConversions [] t text = some [(t.termRef, value)]

/-- What `set` relies on: a number that is printed is converted back, and valid strings are
copied. -/
structure KeepsValues (conv : LogConversions φ δ χ θ) : Prop where
  prints : LogCodec.PrintsBack conv
  utf8 : ∀ s, ValidUTF8 s → conv.makeUTF8Blob s = some s

variable {conv : LogConversions φ δ χ θ} {print : LogPrinters φ δ χ θ} {t : Term} {v s : Bytes}

lemma cString_eq_iff : LogCodec.cString v = v ↔ ∀ b ∈ v, b ≠ 0 := by
  rw [LogCodec.cString, List.takeWhile_eq_self_iff]
  simp

/-- Only the character zero has a zero byte in its encoding. -/
lemma eq_of_zero_mem_utf8EncodeChar {c : Char} (h : 0 ∈ String.utf8EncodeChar c) :
    String.utf8EncodeChar c = [0] := by
  rw [String.utf8EncodeChar.eq_def] at h ⊢
  dsimp only at h ⊢
  generalize c.val.toNat = n at h ⊢
  split_ifs at h ⊢ <;>
    simp [← UInt8.toNat_inj] at h ⊢ <;> omega

/-- A valid string is valid up to its first zero byte. -/
lemma validUTF8_cString (h : ValidUTF8 v) : ValidUTF8 (LogCodec.cString v) := by
  obtain ⟨cs, rfl⟩ := h
  induction cs with
  | nil => exact ValidUTF8.nil
  | cons c cs ih =>
    rw [List.flatMap_cons]
    by_cases hzero : (0 : Byte) ∈ String.utf8EncodeChar c
    · rw [eq_of_zero_mem_utf8EncodeChar hzero]
      exact ValidUTF8.nil
    · have hall : ∀ b ∈ String.utf8EncodeChar c, (b != 0) = true := by
        intro b hb
        rw [bne_iff_ne]
        rintro rfl
        exact hzero hb
      rw [LogCodec.cString, List.takeWhile_append_of_pos hall]
      exact ValidUTF8.append ⟨[c], by simp⟩ ih

/-- A string is set to its text. -/
lemma setString_text (hconv : KeepsValues conv) (h : ValidUTF8 v) :
    Event.setString conv.toConversions [] t.termRef (LogCodec.cString v) =
      some [(t.termRef, .blob (LogCodec.cString v))] := by
  rw [Event.setString, hconv.utf8 _ (validUTF8_cString h)]
  rfl

/-- What comes back of a string is its text. -/
lemma survives_blob (h : Event.write print (.blob v) t = some (LogCodec.cString v))
    (hset : Event.set conv.toConversions [] t (LogCodec.cString v) =
      some [(t.termRef, .blob (LogCodec.cString v))]) :
    SurvivesText conv print t (.blob v) ↔ NoZeroByte (.blob v : ParameterValue φ δ χ θ) := by
  rw [NoZeroByte, ← cString_eq_iff]
  constructor
  · rintro ⟨text, htext, hback⟩
    obtain rfl := Option.some.inj (h.symm.trans htext)
    rw [hset] at hback
    simpa using hback
  · intro hv
    exact ⟨_, h, by rw [hset, hv]⟩

/-- A number comes back. -/
lemma survives_number {value : ParameterValue φ δ χ θ} (h : Event.write print value t = some s)
    (hset : Event.set conv.toConversions [] t s = some [(t.termRef, value)])
    (hvalue : NoZeroByte value) : SurvivesText conv print t value ↔ NoZeroByte value :=
  iff_of_true ⟨s, h, hset⟩ hvalue

end EventText

open EventText

variable {conv : LogConversions φ δ χ θ}

/-- A value comes back from its text, just when it has no zero byte. -/
theorem survivesText_iff (hconv : KeepsValues conv) (print : LogPrinters φ δ χ θ) {t : Term}
    {value : ParameterValue φ δ χ θ} (htyped : Typed t value) :
    SurvivesText conv print t value ↔ NoZeroByte value := by
  cases htype : t.termType <;> cases value <;> simp only [Typed, htype] at htyped
  case int8.int32 v | int16.int32 v | int32.int32 v =>
    refine survives_number (s := decimal v.toInt) ?_ ?_ trivial
    · simp only [Event.write, htype]
    · rw [Event.set, htype]
      simp only [Event.setIntString, hconv.prints.toInt32]
      rfl
  case uint8.uint32 v | uint16.uint32 v | uint32.uint32 v =>
    refine survives_number (s := numeral 10 v.toNat) ?_ ?_ trivial
    · simp only [Event.write, htype]
    · rw [Event.set, htype]
      simp only [Event.setUIntString, hconv.prints.toUInt32]
      rfl
  case int64.int64 v =>
    refine survives_number (s := decimal v.toInt) ?_ ?_ trivial
    · simp only [Event.write, htype]
    · rw [Event.set, htype]
      simp only [Event.setBigIntString, hconv.prints.toInt64]
      rfl
  case uint64.uint64 v =>
    refine survives_number (s := numeral 10 v.toNat) ?_ ?_ trivial
    · simp only [Event.write, htype]
    · rw [Event.set, htype]
      simp only [Event.setUBigIntString, hconv.prints.toUInt64]
      rfl
  case shortString.blob v | string.blob v | longString.blob v =>
    refine survives_blob ?_ ?_
    · simp only [Event.write, htype]
    · rw [Event.set, htype]
      exact setString_text hconv htyped
  case char.blob v =>
    refine survives_blob ?_ ?_
    · simp only [Event.write, htype]
    · rw [Event.set, htype]
      exact setString_text hconv htyped.1
  case blob.blob v | zblob.blob v =>
    refine survives_blob ?_ ?_
    · simp only [Event.write, htype]
    · rw [Event.set, htype]
      rfl

lemma EventText.keepsValues_signedDecimals : KeepsValues LogCodec.signedDecimals where
  prints := LogCodec.printsBack_signedDecimals
  utf8 _ _ := rfl

/-- The least integer of 64 bits. -/
theorem survivesText_iff_least :
    let t : Term := { termRef := 3, termType := .int64 }
    Typed t (.int64 Int64.minValue : ParameterValue Unit Unit Unit Unit) ∧
      (SurvivesText LogCodec.signedDecimals LogCodec.noPrinters t (.int64 Int64.minValue) ↔
        NoZeroByte (.int64 Int64.minValue : ParameterValue Unit Unit Unit Unit)) :=
  ⟨trivial, survivesText_iff EventText.keepsValues_signedDecimals LogCodec.noPrinters trivial⟩

/-- A BLOB comes back without what is behind its first zero byte. -/
theorem not_survivesText :
    let t : Term := { termRef := 3, termType := .blob }
    Event.write LogCodec.noPrinters (.blob [97, 0, 98]) t = some [97] ∧
      Event.set LogCodec.signedDecimals.toConversions [] t [97] = some [(3, .blob [97])] ∧
      ¬ SurvivesText LogCodec.signedDecimals LogCodec.noPrinters t (.blob [97, 0, 98]) := by
  have hwrite : Event.write LogCodec.noPrinters (.blob [97, 0, 98])
      { termRef := 3, termType := .blob } = some (LogCodec.cString [97, 0, 98]) := rfl
  refine ⟨rfl, rfl, fun h => ?_⟩
  exact (survives_blob hwrite rfl).1 h 0 (by decide) rfl

end PionCore.Platform
