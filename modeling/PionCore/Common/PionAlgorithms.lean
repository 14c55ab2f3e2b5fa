/-
# String algorithms

`algo::base64_decode`, `algo::base64_encode` and `algo::url_decode`.
-/
import PionCore.Lib.Ascii

namespace PionCore.Common

open PionCore.Lib

/-- The table of `base64_decode`; `none` is `nop`.  The bytes from 128 on, which are read in
front of the table, are taken as bytes that are not in it. -/
def decodingData (c : Byte) : Option Byte :=
  if c = 43 then some 62
  else if c = 47 then some 63
  else if 48 ≤ c ∧ c ≤ 57 then some (c + 4)
  else if 65 ≤ c ∧ c ≤ 90 then some (c - 65)
  else if 97 ≤ c ∧ c ≤ 122 then some (c - 71)
  else none

/-- `base64_decode`; `none` when it returns false.  What stands behind a padding character is
ignored. -/
def base64Decode : Bytes → Option Bytes
  | [] => some []
  | [_] => none
  | c0 :: c1 :: w => do
      let code0 ← decodingData c0
      let code1 ← decodingData c1
      let out0 : Byte := (code0 <<< 2) ||| (code1 >>> 4 &&& (3 : Byte))
      match w with
      | [] => some [out0]
      | c2 :: w =>
          if c2 = 61 then some [out0]
          else
            let code2 ← decodingData c2
            let out1 : Byte := (code1 <<< 4 &&& (240 : Byte)) ||| (code2 >>> 2 &&& (15 : Byte))
            match w with
            | [] => some [out0, out1]
            | c3 :: w =>
                if c3 = 61 then some [out0, out1]
                else
                  let code3 ← decodingData c3
                  let out2 : Byte := (code2 <<< 6 &&& (192 : Byte)) ||| code3
                  let rest ← base64Decode w
                  some (out0 :: out1 :: out2 :: rest)

/-- The table of `base64_encode`. -/
def encodingData (c : Byte) : Byte :=
  (ascii "ABCDEFGHIJKLMNOPQRSTUVWXYZabcdefghijklmnopqrstuvwxyz0123456789+/").getD c.toNat 0

def base64Encode : Bytes → Bytes
  | [] => []
  | [c0] =>
      [c0 >>> 2 &&& (63 : Byte), c0 <<< 4 &&& (63 : Byte)].map encodingData ++ [61, 61]
  | [c0, c1] =>
      [c0 >>> 2 &&& (63 : Byte), (c0 <<< 4 &&& (63 : Byte)) ||| (c1 >>> 4 &&& (15 : Byte)),
        c1 <<< 2 &&& (63 : Byte)].map encodingData ++ [61]
  | c0 :: c1 :: c2 :: w =>
      [c0 >>> 2 &&& (63 : Byte), (c0 <<< 4 &&& (63 : Byte)) ||| (c1 >>> 4 &&& (15 : Byte)),
        (c1 <<< 2 &&& (63 : Byte)) ||| (c2 >>> 6 &&& (3 : Byte)), c2 &&& (63 : Byte)].map
          encodingData ++ base64Encode w

example : base64Encode (ascii "alice:pw") = ascii "YWxpY2U6cHc=" := by decide +kernel

/-- Three bytes, or what is left of them, give four characters. -/
lemma length_base64Encode (w : Bytes) : (base64Encode w).length = (w.length + 2) / 3 * 4 := by
  induction w using base64Encode.induct with
  | case1 => rfl
  | case2 c0 => simp [base64Encode]
  | case3 c0 c1 => simp [base64Encode]
  | case4 c0 c1 c2 w ih =>
    simp only [base64Encode, List.length_append, List.length_map, List.length_cons, List.length_nil,
      ih]
    omega

/-- Six bits of one byte, or of two. -/
lemma sixBits_lt (c d : Byte) {m n : Byte} (hm : m.toNat < 64) (hn : n.toNat < 64) :
    (c &&& m).toNat < 64 ∧ (c &&& m ||| d &&& n).toNat < 64 := by
  have hone : (c &&& m).toNat < 64 := lt_of_le_of_lt Nat.and_le_right hm
  have htwo : (d &&& n).toNat < 64 := lt_of_le_of_lt Nat.and_le_right hn
  exact ⟨hone, @Nat.or_lt_two_pow _ _ 6 hone htwo⟩

/-- The characters of an encoding stand for six bits, or pad it. -/
lemma mem_base64Encode {w : Bytes} {c : Byte} (h : c ∈ base64Encode w) :
    c = 61 ∨ ∃ d : Byte, d.toNat < 64 ∧ c = encodingData d := by
  have hcode : ∀ {codes : Bytes}, (∀ d ∈ codes, d.toNat < 64) → c ∈ codes.map encodingData →
      c = 61 ∨ ∃ d : Byte, d.toNat < 64 ∧ c = encodingData d := by
    intro codes hcodes hc
    obtain ⟨d, hd, rfl⟩ := List.mem_map.1 hc
    exact Or.inr ⟨d, hcodes d hd, rfl⟩
  have hone := fun a : Byte => (sixBits_lt a a (m := 63) (n := 63) (by decide) (by decide)).1
  have htwo := fun a b : Byte => (sixBits_lt a b (m := 63) (n := 15) (by decide) (by decide)).2
  have hlast := fun a b : Byte => (sixBits_lt a b (m := 63) (n := 3) (by decide) (by decide)).2
  induction w using base64Encode.induct with
  | case1 => simp [base64Encode] at h
  | case2 c0 =>
    rcases List.mem_append.1 h with h | h
    · refine hcode ?_ h
      simpa only [List.forall_mem_cons, hone, true_and] using List.forall_mem_nil _
    · exact Or.inl (by simpa using h)
  | case3 c0 c1 =>
    rcases List.mem_append.1 h with h | h
    · refine hcode ?_ h
      simpa only [List.forall_mem_cons, hone, htwo, true_and] using List.forall_mem_nil _
    · exact Or.inl (by simpa using h)
  | case4 c0 c1 c2 w ih =>
    rcases List.mem_append.1 h with h | h
    · refine hcode ?_ h
      simpa only [List.forall_mem_cons, hone, htwo, hlast, true_and] using List.forall_mem_nil _
    · exact ih h
/-- `strtol` of a string in base 16: blanks, a sign, `0x` and digits. -/
def strtolHex (s : Bytes) : ℤ :=
  let s := s.dropWhile isSpace
  let negative : Bool := s.head? = some 45
  let s := if s.head? = some 45 ∨ s.head? = some 43 then s.tail else s
  let s :=
    match s with
    | 48 :: x :: d :: w => if (x = 120 ∨ x = 88) ∧ isHexDigit d then d :: w else s
    | _ => s
  let n : ℤ := readNumeral 16 (s.takeWhile isHexDigit)
  if negative then -n else n

/-- The character that an escape stands for. -/
def unescape (a b : Byte) : Byte := UInt8.ofNat (strtolHex [a, b] % 256).toNat

/-- `url_decode`; an escape that is cut off is no escape. -/
def urlDecode : Bytes → Bytes
  | [] => []
  | 37 :: a :: b :: w => unescape a b :: urlDecode w
  | c :: w => (if c = 43 then 32 else c) :: urlDecode w

/-- The digit of a value below 16, in upper case. -/
def upperDigit (d : Byte) : Byte := if d < 10 then 48 + d else 55 + d

/-- A character that `url_encode` leaves as it is. -/
def isUrlChar (c : Byte) : Bool :=
  32 < c && c < 127 && ! (ascii " $&+,/:;=?@\"<>#%\x7b\x7d|\\^~[]\x60").contains c

/-- `url_encode`. -/
def urlEncode : Bytes → Bytes
  | [] => []
  | c :: w =>
    if isUrlChar c then c :: urlEncode w
    else 37 :: upperDigit (c / 16) :: upperDigit (c % 16) :: urlEncode w

lemma unescape_upperDigit :
    ∀ c : Byte, unescape (upperDigit (c / 16)) (upperDigit (c % 16)) = c := by
  have hall : ∀ n < 256, unescape (upperDigit (UInt8.ofNat n / 16))
      (upperDigit (UInt8.ofNat n % 16)) = UInt8.ofNat n := by
    decide +kernel
  intro c
  have h := hall c.toNat c.toNat_lt
  rwa [UInt8.ofNat_toNat] at h

lemma isUrlChar_ne {c : Byte} (h : isUrlChar c = true) : c ≠ 37 ∧ c ≠ 43 := by
  constructor <;> rintro rfl <;> revert h <;> decide +kernel

lemma urlDecode_cons {c : Byte} (h : c ≠ 37) (w : Bytes) :
    urlDecode (c :: w) = (if c = 43 then 32 else c) :: urlDecode w := by
  rw [urlDecode]
  rintro a b v rfl
  exact absurd rfl h

/-- An encoded string is decoded back. -/
theorem urlDecode_urlEncode (w : Bytes) : urlDecode (urlEncode w) = w := by
  induction w with
  | nil => rfl
  | cons c w ih =>
    rw [urlEncode]
    split_ifs with hc
    · obtain ⟨hpercent, hplus⟩ := isUrlChar_ne hc
      rw [urlDecode_cons hpercent, if_neg hplus, ih]
    · rw [urlDecode, unescape_upperDigit, ih]

lemma length_le_urlEncode (w : Bytes) : w.length ≤ (urlEncode w).length := by
  induction w with
  | nil => exact Nat.le_refl _
  | cons c w ih =>
    rw [urlEncode]
    split_ifs <;> simp only [List.length_cons] <;> omega

example : base64Decode (ascii "YWxpY2U6cHc=") = some (ascii "alice:pw") := by decide +kernel
example : urlDecode (ascii "/a%0d%0Ab+%2") = ascii "/a\r\nb %2" := by decide +kernel

end PionCore.Common
