/-
# Escapes of a URL

What `url_decode` is for: every `%` that is followed by two hexadecimal digits stands for a byte,
a `+` for a blank, and every other character for itself.  The decoder takes any two characters
behind a `%` for digits, and only a `%` that is too close to the end is left as it is.
-/
import PionCore.Common.PionAlgorithms

namespace PionCore.Common

open PionCore.Lib

/-- The byte with the value of two hexadecimal digits. -/
def escapedByte (a b : Byte) : Byte := UInt8.ofNat (digitVal a * 16 + digitVal b)

/-- The text that a string with escapes stands for. -/
def decodeEscapes : Bytes → Bytes
  | [] => []
  | 37 :: a :: b :: w =>
    if isHexDigit a = true ∧ isHexDigit b = true then escapedByte a b :: decodeEscapes w
    else 37 :: decodeEscapes (a :: b :: w)
  | c :: w => (if c = 43 then 32 else c) :: decodeEscapes w

/-- A `%` that has two characters behind it is followed by two hexadecimal digits. -/
def EscapesValid (s : Bytes) : Prop :=
  ∀ u a b w, s = u ++ 37 :: a :: b :: w → isHexDigit a = true ∧ isHexDigit b = true

lemma escapesValid_nil : EscapesValid [] := by
  rintro (_ | _) a b w h <;> cases h

lemma escapesValid_cons {c : Byte} {w : Bytes} :
    EscapesValid (c :: w) ↔
      (∀ a b v, c :: w = 37 :: a :: b :: v → isHexDigit a = true ∧ isHexDigit b = true) ∧
        EscapesValid w := by
  constructor
  · intro h
    refine ⟨fun a b v hw => h [] a b v hw, fun u a b v hw => h (c :: u) a b v ?_⟩
    rw [hw, List.cons_append]
  · rintro ⟨hhead, htail⟩ (_ | ⟨d, u⟩) a b v hw
    · exact hhead a b v hw
    · exact htail u a b v (List.cons.inj hw).2

/-- A character that is no `%`, or too close to the end, is no escape. -/
lemma escapesValid_cons_of {c : Byte} {w : Bytes} (h : ∀ a b v, c :: w ≠ 37 :: a :: b :: v) :
    EscapesValid (c :: w) ↔ EscapesValid w := by
  rw [escapesValid_cons]
  exact ⟨And.right, fun hw => ⟨fun a b v hc => absurd hc (h a b v), hw⟩⟩

lemma isHexDigit_ne {c : Byte} (h : isHexDigit c = true) : c ≠ 37 ∧ isSpace c = false ∧
    c ≠ 45 ∧ c ≠ 43 := by
  have hall : ∀ n < 256, isHexDigit (UInt8.ofNat n) = true → UInt8.ofNat n ≠ 37 ∧
      isSpace (UInt8.ofNat n) = false ∧ UInt8.ofNat n ≠ 45 ∧ UInt8.ofNat n ≠ 43 := by
    decide +kernel
  have hc := hall c.toNat c.toNat_lt
  rw [UInt8.ofNat_toNat] at hc
  exact hc h

lemma digitVal_lt_of_isHexDigit {c : Byte} (h : isHexDigit c = true) : digitVal c < 16 := by
  have hall : ∀ n < 256, isHexDigit (UInt8.ofNat n) = true → digitVal (UInt8.ofNat n) < 16 := by
    decide +kernel
  have hc := hall c.toNat c.toNat_lt
  rw [UInt8.ofNat_toNat] at hc
  exact hc h

/-- Two hexadecimal digits are read as their value. -/
lemma strtolHex_digits {a b : Byte} (ha : isHexDigit a = true) (hb : isHexDigit b = true) :
    strtolHex [a, b] = (digitVal a * 16 + digitVal b : ℕ) := by
  obtain ⟨-, hspace, hminus, hplus⟩ := isHexDigit_ne ha
  simp [strtolHex, hspace, hminus, hplus, ha, hb, readNumeral]

lemma unescape_digits {a b : Byte} (ha : isHexDigit a = true) (hb : isHexDigit b = true) :
    unescape a b = escapedByte a b := by
  have hlt : digitVal a * 16 + digitVal b < 256 := by
    have := digitVal_lt_of_isHexDigit ha
    have := digitVal_lt_of_isHexDigit hb
    omega
  rw [unescape, strtolHex_digits ha hb, escapedByte]
  congr 1
  omega

/-- Two characters that are not both digits begin with one digit at most. -/
lemma readNumeral_takeWhile_lt {a b : Byte} (h : ¬ (isHexDigit a = true ∧ isHexDigit b = true))
    {s : Bytes} (hs : s <:+ [a, b]) : readNumeral 16 (s.takeWhile isHexDigit) < 16 := by
  match s, hs with
  | [], _ => simp [readNumeral]
  | [c], _ =>
    by_cases hc : isHexDigit c = true
    · simpa [hc, readNumeral] using digitVal_lt_of_isHexDigit hc
    · simp [hc, readNumeral]
  | [c, d], hs =>
    obtain ⟨rfl, rfl⟩ : c = a ∧ d = b := by simpa using hs.eq_of_length rfl
    by_cases hc : isHexDigit c = true
    · have hd : ¬ isHexDigit d = true := fun hd => h ⟨hc, hd⟩
      simpa [hc, hd, readNumeral] using digitVal_lt_of_isHexDigit hc
    · simp [hc, readNumeral]
  | c :: d :: e :: s, hs => exact absurd hs.length_le (by simp)

/-- Without two digits the number is that of one digit at most, perhaps behind a sign. -/
lemma strtolHex_lt {a b : Byte} (h : ¬ (isHexDigit a = true ∧ isHexDigit b = true)) :
    -16 < strtolHex [a, b] ∧ strtolHex [a, b] < 16 := by
  have hsigned : ∀ (negative : Bool) (n : ℕ), n < 16 →
      -16 < (if negative = true then -(n : ℤ) else n) ∧
        (if negative = true then -(n : ℤ) else n) < 16 := by
    intro negative n hn
    cases negative <;> simp <;> omega
  have hdrop : [a, b].dropWhile isSpace <:+ [a, b] := List.dropWhile_suffix _
  generalize hs : [a, b].dropWhile isSpace = s at hdrop
  have hsuffix : (if s.head? = some 45 ∨ s.head? = some 43 then s.tail else s) <:+ [a, b] := by
    split_ifs
    · exact (List.tail_suffix s).trans hdrop
    · exact hdrop
  rw [strtolHex, hs]
  generalize (if s.head? = some 45 ∨ s.head? = some 43 then s.tail else s) = t at hsuffix ⊢
  refine hsigned _ _ ?_
  split
  · -- a prefix in front of a digit takes three characters
    exact absurd hsuffix.length_le (by simp)
  · exact readNumeral_takeWhile_lt h hsuffix

lemma unescape_ne {a b : Byte} (h : ¬ (isHexDigit a = true ∧ isHexDigit b = true)) :
    unescape a b ≠ 37 := by
  obtain ⟨hgt, hlt⟩ := strtolHex_lt h
  intro heq
  have hval := congrArg UInt8.toNat heq
  rw [unescape, UInt8.toNat_ofNat'] at hval
  change _ = 37 at hval
  omega

/-- The decoder decodes exactly the valid escapes of the strings all of whose escapes are valid,
but for those that are cut off.  Behind a `%` in front of two other characters it is wrong already
in the first character. -/
theorem urlDecode_eq_decodeEscapes_iff (s : Bytes) :
    urlDecode s = decodeEscapes s ↔ EscapesValid s := by
  induction s using urlDecode.induct with
  | case1 => exact ⟨fun _ => escapesValid_nil, fun _ => rfl⟩
  | case2 a b w ih =>
    rw [urlDecode, decodeEscapes]
    by_cases hdigits : isHexDigit a = true ∧ isHexDigit b = true
    · have hvalid : EscapesValid (37 :: a :: b :: w) ↔ EscapesValid w := by
        have ha := (isHexDigit_ne hdigits.1).1
        have hb := (isHexDigit_ne hdigits.2).1
        rw [escapesValid_cons, escapesValid_cons_of (c := a) (by rintro _ _ _ ⟨⟩; exact ha rfl),
          escapesValid_cons_of (c := b) (by rintro _ _ _ ⟨⟩; exact hb rfl)]
        exact ⟨And.right, fun hw => ⟨by rintro _ _ _ ⟨⟩; exact hdigits, hw⟩⟩
      rw [if_pos hdigits, unescape_digits hdigits.1 hdigits.2, hvalid, ← ih, List.cons_inj_right]
    · rw [if_neg hdigits]
      refine ⟨fun h => absurd (List.cons.inj h).1 (unescape_ne hdigits), fun h => ?_⟩
      exact absurd (h [] a b w rfl) hdigits
  | case3 c w hc ih =>
    have hne : ∀ a b v, c :: w ≠ 37 :: a :: b :: v := fun a b v h =>
      hc a b v (List.cons.inj h).1 (List.cons.inj h).2
    have hcode : urlDecode (c :: w) = (if c = 43 then 32 else c) :: urlDecode w := by
      rw [urlDecode]
      exact hc
    have hspec : decodeEscapes (c :: w) = (if c = 43 then 32 else c) :: decodeEscapes w := by
      rw [decodeEscapes]
      exact hc
    rw [hcode, hspec, List.cons_inj_right, ih, escapesValid_cons_of hne]

/-- Two characters that are no digits are lost, and a zero byte stands for them. -/
theorem not_urlDecode_eq_decodeEscapes : ¬ ∀ s, urlDecode s = decodeEscapes s := by
  intro h
  exact absurd (h (ascii "/%zz")) (by decide +kernel)

end PionCore.Common
