/-
# Base64

The loops of `algo::base64_encode` and `algo::base64_decode`, with their indices.  The size of the
input is kept in an `unsigned int`, so that a string of `2 ^ 32` bytes or more is read in part.
The table of `base64_decode` is indexed by a plain `char`, which may be negative, and the bits that
a padding character cuts off are asserted to be zero.
-/
import Mathlib.Tactic.IntervalCases
import PionCore.Common.PionAlgorithms

namespace PionCore.Common

open PionCore.Lib

/-- The number of values of an `unsigned int`. -/
def unsignedMod : ℕ := 2 ^ 32

/-- `++i`. -/
def incr (i : ℕ) : ℕ := (i + 1) % unsignedMod

/-! ### Encoding -/

/-- The loop of `base64_encode` from the index `i` on; `none` when there was no time to finish it.
The masks remove what the sign of a `char` adds. -/
def encodeLoop (input : Bytes) : ℕ → ℕ → Bytes → Option Bytes
  | 0, _, _ => none
  | fuel + 1, i, output =>
      let inputLength := input.length % unsignedMod
      if i < inputLength then
        let c0 := input.getD i 0
        let output := output ++ [encodingData (c0 >>> 2 &&& (63 : Byte))]
        let base64code1 := c0 <<< 4 &&& (63 : Byte)
        let i := incr i
        if i < inputLength then
          let c1 := input.getD i 0
          let output := output ++ [encodingData (base64code1 ||| (c1 >>> 4 &&& (15 : Byte)))]
          let base64code2 := c1 <<< 2 &&& (63 : Byte)
          let i := incr i
          if i < inputLength then
            let c2 := input.getD i 0
            encodeLoop input fuel (incr i)
              (output ++ [encodingData (base64code2 ||| (c2 >>> 6 &&& (3 : Byte))),
                encodingData (c2 &&& (63 : Byte))])
          else encodeLoop input fuel (incr i) (output ++ [encodingData base64code2, 61])
        else encodeLoop input fuel (incr i) (output ++ [encodingData base64code1, 61, 61])
      else some output

/-- `base64_encode` ends with this output. -/
def Encodes (input output : Bytes) : Prop := ∃ fuel, encodeLoop input fuel 0 [] = some output

/-! ### Decoding -/

/-- What must not happen in `base64_decode`. -/
inductive DecodeFault where
  /-- `decoding_data` is read outside of its 256 entries -/
  | outsideTable
  /-- the input is read behind its end -/
  | outsideInput
  /-- a `BOOST_ASSERT` fails -/
  | assertionFailed
deriving DecidableEq

/-- `static_cast<int>(c)` of a `char`. -/
def charToInt (charSigned : Bool) (c : Byte) : ℤ :=
  if charSigned ∧ 128 ≤ c then c.toNat - 256 else c.toNat

/-- `decoding_data[index]`; the inner `none` is `nop`. -/
def lookUp (index : ℤ) : Except DecodeFault (Option Byte) :=
  if 0 ≤ index ∧ index < 256 then .ok (decodingData (UInt8.ofNat index.toNat))
  else .error .outsideTable

/-- `input_ptr[i]`. -/
def charAt (input : Bytes) (i : ℕ) : Except DecodeFault Byte :=
  match input[i]? with
  | some c => .ok c
  | none => .error .outsideInput

def codeAt (charSigned : Bool) (input : Bytes) (i : ℕ) : Except DecodeFault (Option Byte) := do
  lookUp (charToInt charSigned (← charAt input i))

/-- How the body of the loop is left. -/
inductive DecodeRound where
  | done (result : Bool) (output : Bytes)
  | next (i : ℕ) (output : Bytes)
deriving DecidableEq

/-- The end of the body of the loop, from the third `++i` on. -/
def decodeLast (charSigned : Bool) (input : Bytes) (i : ℕ) (base64code2 : Byte) (output : Bytes) :
    Except DecodeFault DecodeRound := do
  let i := incr i
  if i < input.length % unsignedMod then
    let c ← charAt input i
    if c = 61 then
      if base64code2 &&& (3 : Byte) = 0 then return .done true output
      else throw .assertionFailed
    else
      match ← codeAt charSigned input i with
      | none => return .done false output
      | some base64code3 =>
          return .next (incr i) (output ++ [(base64code2 <<< 6 &&& (192 : Byte)) ||| base64code3])
  else return .next (incr i) output

/-- The body of the loop of `base64_decode`. -/
def decodeBody (charSigned : Bool) (input : Bytes) (i : ℕ) (output : Bytes) :
    Except DecodeFault DecodeRound := do
  match ← codeAt charSigned input i with
  | none => return .done false output
  | some base64code0 =>
      let i := incr i
      if ¬ i < input.length % unsignedMod then return .done false output
      else
        match ← codeAt charSigned input i with
        | none => return .done false output
        | some base64code1 =>
            let output := output ++ [(base64code0 <<< 2) ||| (base64code1 >>> 4 &&& (3 : Byte))]
            let i := incr i
            if i < input.length % unsignedMod then
              let c ← charAt input i
              if c = 61 then
                if base64code1 &&& (15 : Byte) = 0 then return .done true output
                else throw .assertionFailed
              else
                match ← codeAt charSigned input i with
                | none => return .done false output
                | some base64code2 =>
                    decodeLast charSigned input i base64code2
                      (output ++ [(base64code1 <<< 4 &&& (240 : Byte)) |||
                        (base64code2 >>> 2 &&& (15 : Byte))])
            else decodeLast charSigned input i 0 output

/-- The loop of `base64_decode`; `none` when there was no time to finish it. -/
def decodeLoop (charSigned : Bool) (input : Bytes) :
    ℕ → ℕ → Bytes → Option (Except DecodeFault (Bool × Bytes))
  | 0, _, _ => none
  | fuel + 1, i, output =>
      if i < input.length % unsignedMod then
        match decodeBody charSigned input i output with
        | .error fault => some (.error fault)
        | .ok (.done result output) => some (.ok (result, output))
        | .ok (.next i output) => decodeLoop charSigned input fuel i output
      else some (.ok (true, output))

/-- `base64_decode` ends like this. -/
def Decodes (charSigned : Bool) (input : Bytes) (r : Except DecodeFault (Bool × Bytes)) : Prop :=
  ∃ fuel, decodeLoop charSigned input fuel 0 [] = some r

/-! ### Four characters -/

/-- What is read of the input. -/
def window (input : Bytes) : Bytes := input.take (input.length % unsignedMod)

/-- The end of the body, behind three characters. -/
def decodeFourth (charSigned : Bool) (i : ℕ) (d2 : Byte) (output : Bytes) :
    Bytes → Except DecodeFault DecodeRound
  | [] => return .next i output
  | c3 :: _ =>
      if c3 = 61 then
        if d2 &&& (3 : Byte) = 0 then return .done true output else throw .assertionFailed
      else do
        match ← lookUp (charToInt charSigned c3) with
        | none => return .done false output
        | some d3 => return .next i (output ++ [(d2 <<< 6 &&& (192 : Byte)) ||| d3])

/-- The body of the loop on the characters that are left, with the index behind four of them. -/
def decodeGroup (charSigned : Bool) (i : ℕ) (output : Bytes) :
    Bytes → Except DecodeFault DecodeRound
  | [] => throw .outsideInput
  | c0 :: v => do
      match ← lookUp (charToInt charSigned c0) with
      | none => return .done false output
      | some d0 =>
          match v with
          | [] => return .done false output
          | c1 :: v =>
              match ← lookUp (charToInt charSigned c1) with
              | none => return .done false output
              | some d1 =>
                  let output := output ++ [(d0 <<< 2) ||| (d1 >>> 4 &&& (3 : Byte))]
                  match v with
                  | [] => return .next i output
                  | c2 :: v =>
                      if c2 = 61 then
                        if d1 &&& (15 : Byte) = 0 then return .done true output
                        else throw .assertionFailed
                      else
                        match ← lookUp (charToInt charSigned c2) with
                        | none => return .done false output
                        | some d2 =>
                            decodeFourth charSigned i d2
                              (output ++
                                [(d1 <<< 4 &&& (240 : Byte)) ||| (d2 >>> 2 &&& (15 : Byte))]) v

section Window

variable {input v : Bytes} {i : ℕ} {c : Byte}

lemma length_window : (window input).length = input.length % unsignedMod := by
  rw [window, List.length_take]
  exact Nat.min_eq_left (Nat.mod_le _ _)

lemma length_window_lt : (window input).length < unsignedMod := by
  rw [length_window]
  exact Nat.mod_lt _ (by decide)

lemma lt_of_drop (h : (window input).drop i = c :: v) : i < input.length % unsignedMod := by
  by_contra hle
  rw [List.drop_eq_nil_of_le (by rw [length_window]; omega)] at h
  cases h

lemma not_lt_of_drop (h : (window input).drop i = []) : ¬ i < input.length % unsignedMod := by
  rw [List.drop_eq_nil_iff, length_window] at h
  omega

lemma drop_succ (h : (window input).drop i = c :: v) : (window input).drop (i + 1) = v := by
  rw [← List.drop_drop, h]
  rfl

lemma getElem?_of_drop (h : (window input).drop i = c :: v) : input[i]? = some c := by
  have hget : (window input)[i]? = some c := by
    rw [← Nat.add_zero i, ← List.getElem?_drop, h]
    rfl
  rwa [window, List.getElem?_take_of_lt (lt_of_drop h)] at hget

lemma charAt_of_drop (h : (window input).drop i = c :: v) : charAt input i = .ok c := by
  rw [charAt, getElem?_of_drop h]

lemma incr_of_lt (h : i < input.length % unsignedMod) : incr i = i + 1 := by
  have hmod : input.length % unsignedMod < unsignedMod := Nat.mod_lt _ (by decide)
  exact Nat.mod_eq_of_lt (by omega)

lemma codeAt_of_drop {charSigned : Bool} (h : (window input).drop i = c :: v) :
    codeAt charSigned input i = lookUp (charToInt charSigned c) := by
  rw [codeAt, charAt_of_drop h]
  rfl

lemma decodeLast_eq {charSigned : Bool} {output : Bytes} {d2 : Byte}
    (hlt : i < input.length % unsignedMod) (h : (window input).drop (i + 1) = v) :
    decodeLast charSigned input i d2 output =
      decodeFourth charSigned (incr (i + 1)) d2 output v := by
  rw [decodeLast, incr_of_lt hlt]
  cases v with
  | nil => exact if_neg (not_lt_of_drop h)
  | cons c3 v =>
    refine (if_pos (lt_of_drop h)).trans ?_
    rw [charAt_of_drop h, codeAt_of_drop h]
    rfl

/-- The body of the loop, at an index that is a multiple of four. -/
lemma decodeBody_eq {charSigned : Bool} {output : Bytes} (hi : i % 4 = 0)
    (hlt : i < input.length % unsignedMod) :
    decodeBody charSigned input i output =
      decodeGroup charSigned (incr (i + 3)) output ((window input).drop i) := by
  have hmod : input.length % unsignedMod < 2 ^ 32 := Nat.mod_lt _ (by decide)
  cases h0 : (window input).drop i with
  | nil => exact absurd hlt (not_lt_of_drop h0)
  | cons c0 v =>
    rw [decodeBody, decodeGroup, codeAt_of_drop h0, incr_of_lt hlt]
    refine bind_congr fun code0 => ?_
    cases code0 with
    | none => rfl
    | some d0 =>
      have h1 := drop_succ h0
      cases v with
      | nil =>
        exact if_pos (not_lt_of_drop h1)
      | cons c1 v =>
        have hlt1 := lt_of_drop h1
        simp only [if_neg (not_not.2 hlt1), codeAt_of_drop h1, incr_of_lt hlt1]
        refine bind_congr fun code1 => ?_
        cases code1 with
        | none => rfl
        | some d1 =>
          have h2 := drop_succ h1
          cases v with
          | nil =>
            -- behind the last two characters the index goes on to a multiple of four
            have hend := not_lt_of_drop h2
            have hincr : incr (i + 1 + 1) = i + 3 := Nat.mod_eq_of_lt (by rw [unsignedMod]; omega)
            simp only [if_neg hend, decodeLast, hincr]
            exact if_neg (by omega)
          | cons c2 v =>
            have hlt2 := lt_of_drop h2
            simp only [if_pos hlt2, charAt_of_drop h2, codeAt_of_drop h2]
            change (if c2 = 61 then _ else _) = (if c2 = 61 then _ else _)
            split_ifs with hpad hbits
            · rfl
            · rfl
            · have h3 := drop_succ h2
              refine bind_congr fun code2 => ?_
              cases code2 with
              | none => rfl
              | some d2 => exact decodeLast_eq hlt2 h3

end Window

/-! ### Letters -/

/-- A character that stands for six bits. -/
def IsLetter (c : Byte) : Prop := (decodingData c).isSome = true

instance (c : Byte) : Decidable (IsLetter c) := inferInstanceAs (Decidable (_ = true))

lemma isLetter_iff {c : Byte} : IsLetter c ↔ ∃ d, decodingData c = some d :=
  Option.isSome_iff_exists

lemma not_isLetter_iff {c : Byte} : ¬ IsLetter c ↔ decodingData c = none := by
  rw [IsLetter, Option.not_isSome_iff_eq_none]

/-- A letter is in the lower half of the table, and no padding. -/
lemma IsLetter.lt {c : Byte} (h : IsLetter c) : c < 128 ∧ c ≠ 61 := by
  have hall : ∀ n < 256, IsLetter (UInt8.ofNat n) → UInt8.ofNat n < 128 ∧ UInt8.ofNat n ≠ 61 := by
    decide +kernel
  have hc := hall c.toNat c.toNat_lt
  rw [UInt8.ofNat_toNat] at hc
  exact hc h

lemma lookUp_eq {charSigned : Bool} {c : Byte} (h : charSigned = true → c < 128) :
    lookUp (charToInt charSigned c) = .ok (decodingData c) := by
  have hnot : ¬ (charSigned = true ∧ 128 ≤ c) := by
    rintro ⟨hs, hle⟩
    exact UInt8.not_lt.2 hle (h hs)
  have hlt : c.toNat < 256 := c.toNat_lt
  rw [charToInt, if_neg hnot, lookUp, if_pos ⟨by omega, by omega⟩, Int.toNat_natCast,
    UInt8.ofNat_toNat]

/-- The upper half of the table is not reached if a `char` is signed. -/
lemma lookUp_outside {c : Byte} (h : 128 ≤ c) :
    lookUp (charToInt true c) = .error .outsideTable := by
  have hlt : c.toNat < 256 := c.toNat_lt
  rw [charToInt, if_pos ⟨rfl, h⟩, lookUp, if_neg (by omega)]

lemma lookUp_letter {charSigned : Bool} {c d : Byte} (h : decodingData c = some d) :
    lookUp (charToInt charSigned c) = .ok (some d) := by
  rw [lookUp_eq fun _ => (isLetter_iff.2 ⟨d, h⟩).lt.1, h]

/-- Where the table is read without a fault. -/
lemma lookUp_bind {charSigned : Bool} {c : Byte}
    {f : Option Byte → Except DecodeFault DecodeRound} {r : DecodeRound}
    (h : (lookUp (charToInt charSigned c) >>= f) = .ok r) :
    (∃ d, decodingData c = some d ∧ f (some d) = .ok r) ∨
      ¬ IsLetter c ∧ (charSigned = true → c < 128) ∧ f none = .ok r := by
  by_cases hc : charSigned = true → c < 128
  · rw [lookUp_eq hc] at h
    cases hcode : decodingData c with
    | some d => exact .inl ⟨d, rfl, by rwa [hcode] at h⟩
    | none => exact .inr ⟨not_isLetter_iff.2 hcode, hc, by rwa [hcode] at h⟩
  · obtain ⟨rfl, hle⟩ := Classical.not_imp.1 hc
    rw [lookUp_outside (UInt8.not_lt.1 hle)] at h
    cases h

/-- A character at which four characters are refused, behind letters. -/
structure IsRefusal (charSigned : Bool) (u : Bytes) (c : Byte) : Prop where
  letters : ∀ d ∈ u, IsLetter d
  notLetter : ¬ IsLetter c
  inTable : charSigned = true → c < 128
  noPadding : ¬ (c = 61 ∧ 2 ≤ u.length % 4)

/-- What the body can do with the characters that are left. -/
lemma decodeGroup_cases {charSigned : Bool} {i : ℕ} {output v : Bytes} {r : DecodeRound}
    (h : decodeGroup charSigned i output v = .ok r) :
    (∃ u c z output', v = u ++ c :: z ∧ IsRefusal charSigned u c ∧ r = .done false output' ∧
      output'.length ≤ output.length + 2) ∨
    (∃ c, v = [c] ∧ IsLetter c ∧ r = .done false output) ∨
    (∃ output', r = .done true output' ∧ output'.length ≤ output.length + 2) ∨
    ∃ output', r = .next i output' ∧ output'.length ≤ output.length + 3 ∧
      (∀ c ∈ v.take 4, IsLetter c) ∧ v.length ≠ 1 := by
  rcases v with _ | ⟨c0, v⟩
  · cases h
  rw [decodeGroup] at h
  rcases lookUp_bind h with ⟨d0, hd0, h⟩ | ⟨hc0, hin, h⟩
  swap
  · cases h
    exact .inl ⟨[], c0, v, output, rfl, ⟨by simp, hc0, hin, by simp⟩, rfl, by omega⟩
  have hl0 : IsLetter c0 := isLetter_iff.2 ⟨d0, hd0⟩
  rcases v with _ | ⟨c1, v⟩
  · cases h
    exact .inr (.inl ⟨c0, rfl, hl0, rfl⟩)
  rcases lookUp_bind h with ⟨d1, hd1, h⟩ | ⟨hc1, hin, h⟩
  swap
  · cases h
    exact .inl ⟨[c0], c1, v, output, rfl, ⟨by simpa using hl0, hc1, hin, by simp⟩, rfl, by omega⟩
  have hl1 : IsLetter c1 := isLetter_iff.2 ⟨d1, hd1⟩
  rcases v with _ | ⟨c2, v⟩
  · cases h
    exact .inr (.inr (.inr ⟨_, rfl, by simp, by simp [hl0, hl1], by simp⟩))
  simp only at h
  split_ifs at h with hpad hbits
  · cases h
    exact .inr (.inr (.inl ⟨_, rfl, by simp⟩))
  rcases lookUp_bind h with ⟨d2, hd2, h⟩ | ⟨hc2, hin, h⟩
  swap
  · cases h
    exact .inl ⟨[c0, c1], c2, v, _, rfl,
      ⟨by simp [hl0, hl1], hc2, hin, fun heq => hpad heq.1⟩, rfl, by simp⟩
  have hl2 : IsLetter c2 := isLetter_iff.2 ⟨d2, hd2⟩
  rcases v with _ | ⟨c3, v⟩
  · cases h
    exact .inr (.inr (.inr ⟨_, rfl, by simp, by simp [hl0, hl1, hl2], by simp⟩))
  simp only [decodeFourth] at h
  split_ifs at h with hpad hbits
  · cases h
    exact .inr (.inr (.inl ⟨_, rfl, by simp⟩))
  rcases lookUp_bind h with ⟨d3, hd3, h⟩ | ⟨hc3, hin, h⟩
  · cases h
    have hl3 : IsLetter c3 := isLetter_iff.2 ⟨d3, hd3⟩
    exact .inr (.inr (.inr ⟨_, rfl, by simp, by simp [hl0, hl1, hl2, hl3], by simp⟩))
  · cases h
    exact .inl ⟨[c0, c1, c2], c3, v, _, rfl,
      ⟨by simp [hl0, hl1, hl2], hc3, hin, fun heq => hpad heq.1⟩, rfl, by simp⟩

section Groups

variable (charSigned : Bool) (i : ℕ) (output z : Bytes) {c0 c1 c2 c3 d0 d1 d2 d3 : Byte}

lemma decodeGroup_letters (h0 : decodingData c0 = some d0) (h1 : decodingData c1 = some d1)
    (h2 : decodingData c2 = some d2) (h3 : decodingData c3 = some d3) :
    decodeGroup charSigned i output (c0 :: c1 :: c2 :: c3 :: z) =
      .ok (.next i (output ++ [(d0 <<< 2) ||| (d1 >>> 4 &&& (3 : Byte)),
        (d1 <<< 4 &&& (240 : Byte)) ||| (d2 >>> 2 &&& (15 : Byte)),
        (d2 <<< 6 &&& (192 : Byte)) ||| d3])) := by
  have hne2 := (isLetter_iff.2 ⟨d2, h2⟩).lt.2
  have hne3 := (isLetter_iff.2 ⟨d3, h3⟩).lt.2
  simp [decodeGroup, decodeFourth, lookUp_letter h0, lookUp_letter h1, lookUp_letter h2,
    lookUp_letter h3, hne2, hne3, bind, Except.bind, pure, Except.pure]

lemma decodeGroup_onePad (h0 : decodingData c0 = some d0) (h1 : decodingData c1 = some d1)
    (h2 : decodingData c2 = some d2) (hbits : d2 &&& (3 : Byte) = 0) :
    decodeGroup charSigned i output (c0 :: c1 :: c2 :: 61 :: z) =
      .ok (.done true (output ++ [(d0 <<< 2) ||| (d1 >>> 4 &&& (3 : Byte)),
        (d1 <<< 4 &&& (240 : Byte)) ||| (d2 >>> 2 &&& (15 : Byte))])) := by
  have hne2 := (isLetter_iff.2 ⟨d2, h2⟩).lt.2
  simp [decodeGroup, decodeFourth, lookUp_letter h0, lookUp_letter h1, lookUp_letter h2,
    hne2, hbits, bind, Except.bind, pure, Except.pure]

lemma decodeGroup_twoPads (h0 : decodingData c0 = some d0) (h1 : decodingData c1 = some d1)
    (hbits : d1 &&& (15 : Byte) = 0) :
    decodeGroup charSigned i output (c0 :: c1 :: 61 :: z) =
      .ok (.done true (output ++ [(d0 <<< 2) ||| (d1 >>> 4 &&& (3 : Byte))])) := by
  simp [decodeGroup, lookUp_letter h0, lookUp_letter h1, hbits, bind, Except.bind, pure,
    Except.pure]

end Groups

/-! ### What is refused -/

/-- A string that is refused: at a character that is no letter, unless it pads four characters, or
since the last letter stands alone. -/
def IsRefused (charSigned : Bool) (w : Bytes) : Prop :=
  (∃ u c z, w = u ++ c :: z ∧ IsRefusal charSigned u c) ∨
    (∀ c ∈ w, IsLetter c) ∧ w.length % 4 = 1

section Loop

variable {charSigned : Bool} {input w : Bytes} {i : ℕ} {c : Byte} {output : Bytes}

/-- Four characters are refused, or all of them are letters. -/
lemma IsRefused.cases (i : ℕ) (output : Bytes) (h : IsRefused charSigned w) :
    (∃ output', decodeGroup charSigned i output w = .ok (.done false output')) ∨
      ∃ c0 c1 c2 c3 d0 d1 d2 d3 v, w = c0 :: c1 :: c2 :: c3 :: v ∧ decodingData c0 = some d0 ∧
        decodingData c1 = some d1 ∧ decodingData c2 = some d2 ∧ decodingData c3 = some d3 ∧
        IsRefused charSigned v := by
  rcases h with ⟨u, c, z, rfl, hu, hc, hin, hpad⟩ | ⟨hw, hmod⟩
  · have hlook : lookUp (charToInt charSigned c) = .ok none := by
      rw [lookUp_eq hin, not_isLetter_iff.1 hc]
    have hcode : ∀ d ∈ u, ∃ code, decodingData d = some code := fun d hd => isLetter_iff.1 (hu d hd)
    have hne : ∀ d ∈ u, d ≠ 61 := fun d hd => (hu d hd).lt.2
    rcases u with _ | ⟨c0, _ | ⟨c1, _ | ⟨c2, _ | ⟨c3, u⟩⟩⟩⟩
    · exact .inl ⟨output, by simp [decodeGroup, hlook, bind, Except.bind, pure, Except.pure]⟩
    · obtain ⟨d0, h0⟩ := hcode c0 (by simp)
      exact .inl ⟨output, by simp [decodeGroup, lookUp_letter h0, hlook, bind, Except.bind, pure,
        Except.pure]⟩
    · obtain ⟨d0, h0⟩ := hcode c0 (by simp)
      obtain ⟨d1, h1⟩ := hcode c1 (by simp)
      have hc61 : c ≠ 61 := fun heq => hpad ⟨heq, by simp⟩
      exact .inl ⟨_, by simp [decodeGroup, lookUp_letter h0, lookUp_letter h1, hlook, hc61, bind,
        Except.bind, pure, Except.pure]; rfl⟩
    · obtain ⟨d0, h0⟩ := hcode c0 (by simp)
      obtain ⟨d1, h1⟩ := hcode c1 (by simp)
      obtain ⟨d2, h2⟩ := hcode c2 (by simp)
      have hc61 : c ≠ 61 := fun heq => hpad ⟨heq, by simp⟩
      have h261 : c2 ≠ 61 := hne c2 (by simp)
      exact .inl ⟨_, by simp [decodeGroup, decodeFourth, lookUp_letter h0, lookUp_letter h1,
        lookUp_letter h2, hlook, hc61, h261, bind, Except.bind, pure, Except.pure]; rfl⟩
    · obtain ⟨d0, h0⟩ := hcode c0 (by simp)
      obtain ⟨d1, h1⟩ := hcode c1 (by simp)
      obtain ⟨d2, h2⟩ := hcode c2 (by simp)
      obtain ⟨d3, h3⟩ := hcode c3 (by simp)
      refine .inr ⟨c0, c1, c2, c3, d0, d1, d2, d3, u ++ c :: z, rfl, h0, h1, h2, h3,
        .inl ⟨u, c, z, rfl, fun d hd => hu d (by simp [hd]), hc, hin, fun heq => hpad ?_⟩⟩
      refine ⟨heq.1, ?_⟩
      simp only [List.length_cons]
      omega
  · have hcode : ∀ d ∈ w, ∃ code, decodingData d = some code := fun d hd => isLetter_iff.1 (hw d hd)
    rcases w with _ | ⟨c0, _ | ⟨c1, _ | ⟨c2, _ | ⟨c3, v⟩⟩⟩⟩
    · simp at hmod
    · obtain ⟨d0, h0⟩ := hcode c0 (by simp)
      exact .inl ⟨output, by simp [decodeGroup, lookUp_letter h0, bind, Except.bind, pure,
        Except.pure]⟩
    · simp at hmod
    · simp at hmod
    · obtain ⟨d0, h0⟩ := hcode c0 (by simp)
      obtain ⟨d1, h1⟩ := hcode c1 (by simp)
      obtain ⟨d2, h2⟩ := hcode c2 (by simp)
      obtain ⟨d3, h3⟩ := hcode c3 (by simp)
      refine .inr ⟨c0, c1, c2, c3, d0, d1, d2, d3, v, rfl, h0, h1, h2, h3,
        .inr ⟨fun d hd => hw d (by simp [hd]), ?_⟩⟩
      simp only [List.length_cons] at hmod
      omega

lemma drop_four {c0 c1 c2 c3 : Byte} {v : Bytes}
    (h : (window input).drop i = c0 :: c1 :: c2 :: c3 :: v) : (window input).drop (i + 4) = v := by
  rw [← List.drop_drop, h]
  rfl

/-- Behind four characters, the index has not wrapped around. -/
lemma incr_four {c0 c1 c2 c3 : Byte} {v : Bytes}
    (h : (window input).drop i = c0 :: c1 :: c2 :: c3 :: v) : incr (i + 3) = i + 4 :=
  incr_of_lt (lt_of_drop (drop_succ (drop_succ (drop_succ h))))

lemma decodeLoop_done {fuel : ℕ} {result : Bool} {output' : Bytes} (hi : i % 4 = 0)
    (hlt : i < input.length % unsignedMod)
    (h : decodeGroup charSigned (incr (i + 3)) output ((window input).drop i) =
      .ok (.done result output')) :
    decodeLoop charSigned input (fuel + 1) i output = some (.ok (result, output')) := by
  rw [decodeLoop, if_pos hlt, decodeBody_eq hi hlt, h]

lemma decodeLoop_next {fuel j : ℕ} {output' : Bytes} (hi : i % 4 = 0)
    (hlt : i < input.length % unsignedMod)
    (h : decodeGroup charSigned (incr (i + 3)) output ((window input).drop i) =
      .ok (.next j output')) :
    decodeLoop charSigned input (fuel + 1) i output =
      decodeLoop charSigned input fuel j output' := by
  rw [decodeLoop, if_pos hlt, decodeBody_eq hi hlt, h]

lemma decodeLoop_end {fuel : ℕ} (hlt : ¬ i < input.length % unsignedMod) :
    decodeLoop charSigned input (fuel + 1) i output = some (.ok (true, output)) := by
  rw [decodeLoop, if_neg hlt]

/-- What is refused is not decoded. -/
lemma decodeLoop_refused (output : Bytes) (hw : (window input).drop i = w) (hi : i % 4 = 0)
    (h : IsRefused charSigned w) :
    ∃ fuel output', decodeLoop charSigned input fuel i output = some (.ok (false, output')) := by
  induction hlength : w.length using Nat.strong_induction_on generalizing w i output with
  | _ n ih =>
    have hlt : i < input.length % unsignedMod := by
      rcases w with _ | ⟨c, v⟩
      · rcases h with ⟨u, c, z, hnil, -⟩ | ⟨-, hmod⟩
        · cases u <;> cases hnil
        · simp at hmod
      · exact lt_of_drop hw
    rcases h.cases (incr (i + 3)) output with
      ⟨output', hdone⟩ | ⟨c0, c1, c2, c3, d0, d1, d2, d3, v, rfl, h0, h1, h2, h3, hv⟩
    · exact ⟨1, output', decodeLoop_done hi hlt (by rw [hw, hdone])⟩
    · have hgroup := decodeGroup_letters charSigned (incr (i + 3)) output v h0 h1 h2 h3
      simp only [List.length_cons] at hlength
      obtain ⟨fuel, output', hfuel⟩ := ih v.length (by omega) _ (drop_four hw) (by omega) hv rfl
      refine ⟨fuel + 1, output', ?_⟩
      rw [decodeLoop_next hi hlt (by rw [hw]; exact hgroup), incr_four hw]
      exact hfuel

/-- Only what is refused is not decoded: all characters in front of the index are letters. -/
lemma isRefused_of_decodeLoop {fuel : ℕ} {output' : Bytes} (hi : i % 4 = 0)
    (hle : i ≤ input.length % unsignedMod) (hletters : ∀ c ∈ (window input).take i, IsLetter c)
    (h : decodeLoop charSigned input fuel i output = some (.ok (false, output'))) :
    IsRefused charSigned (window input) := by
  induction fuel generalizing i output with
  | zero => cases h
  | succ fuel ih =>
    by_cases hlt : i < input.length % unsignedMod
    swap
    · rw [decodeLoop_end hlt] at h
      cases h
    have hsplit := List.take_append_drop i (window input)
    have htake : ((window input).take i).length = i := by
      rw [List.length_take, length_window]
      omega
    rw [decodeLoop, if_pos hlt, decodeBody_eq hi hlt] at h
    cases hgroup : decodeGroup charSigned (incr (i + 3)) output ((window input).drop i) with
    | error fault => rw [hgroup] at h; cases h
    | ok r =>
      rw [hgroup] at h
      rcases decodeGroup_cases hgroup with ⟨u, c, z, _, hv, hrefusal, rfl, -⟩ | ⟨c, hv, hc, rfl⟩ |
        ⟨_, rfl, -⟩ | ⟨_, rfl, -, hfour, -⟩
      · refine .inl ⟨(window input).take i ++ u, c, z, ?_, ?_, hrefusal.notLetter, hrefusal.inTable,
          fun heq => hrefusal.noPadding ⟨heq.1, ?_⟩⟩
        · rw [List.append_assoc, ← hv, hsplit]
        · exact fun d hd => (List.mem_append.1 hd).elim (hletters d) (hrefusal.letters d)
        · have hlength := heq.2
          rw [List.length_append, htake] at hlength
          omega
      · rw [hv] at hsplit
        refine .inr ⟨?_, ?_⟩
        · rw [← hsplit]
          intro d hd
          rcases List.mem_append.1 hd with hd | hd
          · exact hletters d hd
          · exact (List.mem_singleton.1 hd) ▸ hc
        · rw [← hsplit, List.length_append, htake, List.length_singleton]
          omega
      · cases h
      · -- the index goes on, or it wraps around behind the last letters
        have hmod : input.length % unsignedMod < 2 ^ 32 := Nat.mod_lt _ (by decide)
        by_cases hnext : i + 4 ≤ input.length % unsignedMod
        · have hincr : incr (i + 3) = i + 4 := Nat.mod_eq_of_lt (by rw [unsignedMod]; omega)
          rw [hincr] at h
          refine ih (by omega) hnext (fun d hd => ?_) h
          rw [List.take_add] at hd
          exact (List.mem_append.1 hd).elim (hletters d) (hfour d)
        · by_cases hwrap : i + 4 = 2 ^ 32
          · have hincr : incr (i + 3) = 0 := by
              rw [incr, show i + 3 + 1 = unsignedMod from hwrap, Nat.mod_self]
            rw [hincr] at h
            exact ih rfl (Nat.zero_le _) (by simp) h
          · have hincr : incr (i + 3) = i + 4 := Nat.mod_eq_of_lt (by rw [unsignedMod]; omega)
            simp only [hincr] at h
            cases fuel with
            | zero => cases h
            | succ fuel =>
              rw [decodeLoop_end (by omega)] at h
              cases h

end Loop

/-! ### What is decoded -/

/-- A string in base64: groups of four letters, of which the last one may be padded, where the bits
that are cut off are zero. -/
inductive IsBase64 : Bytes → Prop where
  | nil : IsBase64 []
  | twoPads {c0 c1 d0 d1 : Byte} (h0 : decodingData c0 = some d0) (h1 : decodingData c1 = some d1)
      (hbits : d1 &&& (15 : Byte) = 0) : IsBase64 [c0, c1, 61, 61]
  | onePad {c0 c1 c2 d0 d1 d2 : Byte} (h0 : decodingData c0 = some d0)
      (h1 : decodingData c1 = some d1) (h2 : decodingData c2 = some d2)
      (hbits : d2 &&& (3 : Byte) = 0) : IsBase64 [c0, c1, c2, 61]
  | group {c0 c1 c2 c3 d0 d1 d2 d3 : Byte} {w : Bytes} (h0 : decodingData c0 = some d0)
      (h1 : decodingData c1 = some d1) (h2 : decodingData c2 = some d2)
      (h3 : decodingData c3 = some d3) (hw : IsBase64 w) : IsBase64 (c0 :: c1 :: c2 :: c3 :: w)

lemma IsBase64.length_mod {w : Bytes} (h : IsBase64 w) : w.length % 4 = 0 := by
  induction h with
  | nil => rfl
  | twoPads => simp
  | onePad => simp
  | group _ _ _ _ _ ih =>
    simp only [List.length_cons]
    omega

lemma IsBase64.mem {w : Bytes} (h : IsBase64 w) : ∀ c ∈ w, IsLetter c ∨ c = 61 := by
  induction h with
  | nil => simp
  | twoPads h0 h1 => simp [isLetter_iff.2 ⟨_, h0⟩, isLetter_iff.2 ⟨_, h1⟩]
  | onePad h0 h1 h2 =>
    simp [isLetter_iff.2 ⟨_, h0⟩, isLetter_iff.2 ⟨_, h1⟩, isLetter_iff.2 ⟨_, h2⟩]
  | group h0 h1 h2 h3 _ ih =>
    simpa [isLetter_iff.2 ⟨_, h0⟩, isLetter_iff.2 ⟨_, h1⟩, isLetter_iff.2 ⟨_, h2⟩,
      isLetter_iff.2 ⟨_, h3⟩] using ih

lemma drop_window {input v : Bytes} {i : ℕ} {c0 c1 c2 c3 : Byte}
    (h : input.drop i = c0 :: c1 :: c2 :: c3 :: v) (hle : i + 4 ≤ input.length % unsignedMod) :
    (window input).drop i =
      c0 :: c1 :: c2 :: c3 :: v.take (input.length % unsignedMod - i - 4) := by
  obtain ⟨n, hn⟩ : ∃ n, input.length % unsignedMod - i = n + 4 :=
    ⟨input.length % unsignedMod - i - 4, by omega⟩
  rw [window, List.drop_take, h, hn]
  rfl

/-- A string in base64 is decoded, at least in part. -/
lemma decodeLoop_isBase64 (charSigned : Bool) {input w : Bytes} {i : ℕ} (output : Bytes)
    (hfour : input.length % 4 = 0) (hw : input.drop i = w) (hi : i % 4 = 0)
    (hle : i ≤ input.length % unsignedMod) (h : IsBase64 w) :
    ∃ fuel output', decodeLoop charSigned input fuel i output = some (.ok (true, output')) := by
  have hmod : input.length % unsignedMod % 4 = 0 := by
    rw [unsignedMod]
    omega
  induction h generalizing i output with
  | nil =>
    rw [List.drop_eq_nil_iff] at hw
    have hlength := Nat.mod_le input.length unsignedMod
    exact ⟨1, output, decodeLoop_end (by omega)⟩
  | twoPads h0 h1 hbits =>
    by_cases hlt : i < input.length % unsignedMod
    · have hgroup := decodeGroup_twoPads charSigned (incr (i + 3)) output
        (61 :: [].take (input.length % unsignedMod - i - 4)) h0 h1 hbits
      rw [← drop_window hw (by omega)] at hgroup
      exact ⟨1, _, decodeLoop_done hi hlt hgroup⟩
    · exact ⟨1, output, decodeLoop_end hlt⟩
  | onePad h0 h1 h2 hbits =>
    by_cases hlt : i < input.length % unsignedMod
    · have hgroup := decodeGroup_onePad charSigned (incr (i + 3)) output
        ([].take (input.length % unsignedMod - i - 4)) h0 h1 h2 hbits
      rw [← drop_window hw (by omega)] at hgroup
      exact ⟨1, _, decodeLoop_done hi hlt hgroup⟩
    · exact ⟨1, output, decodeLoop_end hlt⟩
  | @group _ _ _ _ _ _ _ _ v h0 h1 h2 h3 _ ih =>
    by_cases hlt : i < input.length % unsignedMod
    · have hgroup := decodeGroup_letters charSigned (incr (i + 3)) output
        (v.take (input.length % unsignedMod - i - 4)) h0 h1 h2 h3
      have hwindow := drop_window hw (by omega)
      rw [← hwindow, incr_four hwindow] at hgroup
      have hrest : input.drop (i + 4) = v := by
        rw [← List.drop_drop, hw]
        rfl
      obtain ⟨fuel, output', hfuel⟩ := ih _ hrest (by omega) (by omega)
      refine ⟨fuel + 1, output', ?_⟩
      rw [decodeLoop_next hi hlt (by rw [incr_four hwindow]; exact hgroup)]
      exact hfuel
    · exact ⟨1, output, decodeLoop_end hlt⟩

lemma decodeLoop_add {charSigned : Bool} {input output : Bytes} {fuel i : ℕ}
    {r : Except DecodeFault (Bool × Bytes)}
    (h : decodeLoop charSigned input fuel i output = some r) (n : ℕ) :
    decodeLoop charSigned input (fuel + n) i output = some r := by
  induction fuel generalizing i output with
  | zero => cases h
  | succ fuel ih =>
    rw [Nat.add_right_comm]
    rw [decodeLoop] at h ⊢
    split_ifs at h ⊢ with hlt
    · cases hbody : decodeBody charSigned input i output with
      | error fault => rwa [hbody] at h
      | ok round =>
        rw [hbody] at h
        cases round with
        | done result output' => exact h
        | next j output' => exact ih h
    · exact h

/-- `base64_decode` ends in one way. -/
lemma Decodes.unique {charSigned : Bool} {input : Bytes}
    {r r' : Except DecodeFault (Bool × Bytes)} (h : Decodes charSigned input r)
    (h' : Decodes charSigned input r') : r = r' := by
  obtain ⟨fuel, h⟩ := h
  obtain ⟨fuel', h'⟩ := h'
  have hsum := decodeLoop_add h fuel'
  rw [Nat.add_comm, decodeLoop_add h' fuel] at hsum
  exact (Option.some.inj hsum).symm

/-- `base64_decode` returns, without a fault, and false unless the input is in base64. -/
def DecodesSafely (charSigned : Bool) (input : Bytes) : Prop :=
  ∃ result output, Decodes charSigned input (.ok (result, output)) ∧
    (result = true → IsBase64 input)

/-- The input is safe if it is in base64, or if a character in the table tells that it is not: one
that is no letter, and does not stand where padding may be, or a last letter alone. -/
theorem decodesSafely_iff (charSigned : Bool) (input : Bytes) :
    DecodesSafely charSigned input ↔ IsBase64 input ∨ IsRefused charSigned (window input) := by
  constructor
  · rintro ⟨result, output, ⟨fuel, hfuel⟩, hvalid⟩
    cases result with
    | true => exact .inl (hvalid rfl)
    | false =>
      exact .inr (isRefused_of_decodeLoop rfl (Nat.zero_le _) (by simp) hfuel)
  · rintro (hvalid | hrefused)
    · obtain ⟨fuel, output, hfuel⟩ := decodeLoop_isBase64 charSigned [] hvalid.length_mod
        List.drop_zero rfl (Nat.zero_le _) hvalid
      exact ⟨true, output, ⟨fuel, hfuel⟩, fun _ => hvalid⟩
    · obtain ⟨fuel, output, hfuel⟩ :=
        decodeLoop_refused [] List.drop_zero rfl hrefused
      exact ⟨false, output, ⟨fuel, hfuel⟩, fun h => by cases h⟩

/-- A byte above 127 is looked up in front of the table, bits that are cut off fail the assertion,
and letters without padding are taken. -/
theorem decodesSafely_not :
    ¬ DecodesSafely true [128] ∧ ¬ DecodesSafely true (ascii "AB==") ∧
      ¬ DecodesSafely true (ascii "AA") := by
  have hnot : ∀ {input : Bytes} {r : Except DecodeFault (Bool × Bytes)},
      decodeLoop true input 2 0 [] = some r → (∀ output, r ≠ .ok (false, output)) →
      (∀ output, r = .ok (true, output) → ¬ IsBase64 input) → ¬ DecodesSafely true input := by
    rintro input r hr hfalse htrue ⟨result, output, hdecodes, hvalid⟩
    obtain rfl := Decodes.unique hdecodes ⟨2, hr⟩
    cases result with
    | true => exact htrue output rfl (hvalid rfl)
    | false => exact hfalse output rfl
  refine ⟨hnot (r := .error .outsideTable) rfl (by simp) (by simp),
    hnot (r := .error .assertionFailed) rfl (by simp) (by simp),
    hnot (r := .ok (true, [0])) rfl (by simp) fun _ _ h => ?_⟩
  exact absurd h.length_mod (by decide)

/-! ### The round trip -/

lemma decodingData_encodingData {d : Byte} (hd : d.toNat < 64) :
    decodingData (encodingData d) = some d := by
  have hall : ∀ n < 64, decodingData (encodingData (UInt8.ofNat n)) = some (UInt8.ofNat n) := by
    decide +kernel
  have h := hall d.toNat hd
  rwa [UInt8.ofNat_toNat] at h

/-- Bytes are equal if their bits are. -/
lemma eq_of_bits {b c : Byte} (h : ∀ i (hi : i < 8), b.toBitVec[i] = c.toBitVec[i]) : b = c :=
  UInt8.toBitVec_inj.1 (BitVec.eq_of_getElem_eq h)

/-- Six bits of a byte are put back. -/
lemma firstByte_eq (c0 c1 : Byte) :
    ((c0 >>> 2 &&& (63 : Byte)) <<< 2) |||
      (((c0 <<< 4 &&& (63 : Byte)) ||| (c1 >>> 4 &&& (15 : Byte))) >>> 4 &&& (3 : Byte)) = c0 := by
  refine eq_of_bits fun i hi => ?_
  interval_cases i <;> simp

lemma secondByte_eq (c0 c1 c2 : Byte) :
    (((c0 <<< 4 &&& (63 : Byte)) ||| (c1 >>> 4 &&& (15 : Byte))) <<< 4 &&& (240 : Byte)) |||
      (((c1 <<< 2 &&& (63 : Byte)) ||| (c2 >>> 6 &&& (3 : Byte))) >>> 2 &&& (15 : Byte)) = c1 := by
  refine eq_of_bits fun i hi => ?_
  interval_cases i <;> simp

lemma thirdByte_eq (c1 c2 : Byte) :
    (((c1 <<< 2 &&& (63 : Byte)) ||| (c2 >>> 6 &&& (3 : Byte))) <<< 6 &&& (192 : Byte)) |||
      (c2 &&& (63 : Byte)) = c2 := by
  refine eq_of_bits fun i hi => ?_
  interval_cases i <;> simp

lemma cutBits_two (c0 : Byte) : (c0 <<< 4 &&& (63 : Byte)) &&& (15 : Byte) = 0 := by
  refine eq_of_bits fun i hi => ?_
  interval_cases i <;> simp

lemma cutBits_one (c1 : Byte) : (c1 <<< 2 &&& (63 : Byte)) &&& (3 : Byte) = 0 := by
  refine eq_of_bits fun i hi => ?_
  interval_cases i <;> simp

lemma firstByte_twoPads (c0 : Byte) :
    ((c0 >>> 2 &&& (63 : Byte)) <<< 2) ||| ((c0 <<< 4 &&& (63 : Byte)) >>> 4 &&& (3 : Byte)) =
      c0 := by
  simpa using firstByte_eq c0 0

lemma secondByte_onePad (c0 c1 : Byte) :
    (((c0 <<< 4 &&& (63 : Byte)) ||| (c1 >>> 4 &&& (15 : Byte))) <<< 4 &&& (240 : Byte)) |||
      ((c1 <<< 2 &&& (63 : Byte)) >>> 2 &&& (15 : Byte)) = c1 := by
  simpa using secondByte_eq c0 c1 0

section Codes

variable (c0 c1 c2 : Byte)

lemma firstCode : decodingData (encodingData (c0 >>> 2 &&& (63 : Byte))) =
    some (c0 >>> 2 &&& (63 : Byte)) :=
  decodingData_encodingData (sixBits_lt _ 0 (by decide) (by decide : (0 : Byte).toNat < 64)).1

lemma secondCode_twoPads : decodingData (encodingData (c0 <<< 4 &&& (63 : Byte))) =
    some (c0 <<< 4 &&& (63 : Byte)) :=
  decodingData_encodingData (sixBits_lt _ 0 (by decide) (by decide : (0 : Byte).toNat < 64)).1

lemma secondCode :
    decodingData (encodingData ((c0 <<< 4 &&& (63 : Byte)) ||| (c1 >>> 4 &&& (15 : Byte)))) =
      some ((c0 <<< 4 &&& (63 : Byte)) ||| (c1 >>> 4 &&& (15 : Byte))) :=
  decodingData_encodingData (sixBits_lt _ _ (by decide) (by decide)).2

lemma thirdCode_onePad : decodingData (encodingData (c1 <<< 2 &&& (63 : Byte))) =
    some (c1 <<< 2 &&& (63 : Byte)) :=
  decodingData_encodingData (sixBits_lt _ 0 (by decide) (by decide : (0 : Byte).toNat < 64)).1

lemma thirdCode :
    decodingData (encodingData ((c1 <<< 2 &&& (63 : Byte)) ||| (c2 >>> 6 &&& (3 : Byte)))) =
      some ((c1 <<< 2 &&& (63 : Byte)) ||| (c2 >>> 6 &&& (3 : Byte))) :=
  decodingData_encodingData (sixBits_lt _ _ (by decide) (by decide)).2

lemma fourthCode : decodingData (encodingData (c2 &&& (63 : Byte))) =
    some (c2 &&& (63 : Byte)) :=
  decodingData_encodingData (sixBits_lt _ 0 (by decide) (by decide : (0 : Byte).toNat < 64)).1

end Codes

lemma isBase64_base64Encode (x : Bytes) : IsBase64 (base64Encode x) := by
  induction x using base64Encode.induct with
  | case1 => exact .nil
  | case2 c0 => exact .twoPads (firstCode c0) (secondCode_twoPads c0) (cutBits_two c0)
  | case3 c0 c1 =>
    exact .onePad (firstCode c0) (secondCode c0 c1) (thirdCode_onePad c1) (cutBits_one c1)
  | case4 c0 c1 c2 w ih =>
    exact .group (firstCode c0) (secondCode c0 c1) (thirdCode c1 c2) (fourthCode c2) ih

/-- An encoding is decoded from any place on at which a group begins. -/
lemma decodeLoop_base64Encode (charSigned : Bool) {input x : Bytes} {i : ℕ} (output : Bytes)
    (hi : i % 4 = 0) (h : (window input).drop i = base64Encode x) :
    ∃ fuel, decodeLoop charSigned input fuel i output = some (.ok (true, output ++ x)) := by
  induction x using base64Encode.induct generalizing i output with
  | case1 => exact ⟨1, by rw [decodeLoop_end (not_lt_of_drop h), List.append_nil]⟩
  | case2 c0 =>
    have hgroup := decodeGroup_twoPads charSigned (incr (i + 3)) output [61] (firstCode c0)
      (secondCode_twoPads c0) (cutBits_two c0)
    rw [firstByte_twoPads] at hgroup
    exact ⟨1, decodeLoop_done hi (lt_of_drop h) (by rw [h]; exact hgroup)⟩
  | case3 c0 c1 =>
    have hgroup := decodeGroup_onePad charSigned (incr (i + 3)) output [] (firstCode c0)
      (secondCode c0 c1) (thirdCode_onePad c1) (cutBits_one c1)
    rw [firstByte_eq, secondByte_onePad] at hgroup
    exact ⟨1, decodeLoop_done hi (lt_of_drop h) (by rw [h]; exact hgroup)⟩
  | case4 c0 c1 c2 w ih =>
    have hgroup := decodeGroup_letters charSigned (incr (i + 3)) output (base64Encode w)
      (firstCode c0) (secondCode c0 c1) (thirdCode c1 c2) (fourthCode c2)
    rw [firstByte_eq, secondByte_eq, thirdByte_eq] at hgroup
    obtain ⟨fuel, hfuel⟩ := ih (output ++ [c0, c1, c2]) (by omega : (i + 4) % 4 = 0)
      (drop_four h)
    refine ⟨fuel + 1, ?_⟩
    rw [decodeLoop_next hi (lt_of_drop h) (by rw [h]; exact hgroup), incr_four h, hfuel,
      List.append_assoc]
    rfl

/-- Not more than three bytes come from four characters. -/
lemma length_decodeLoop {charSigned : Bool} {input : Bytes} {fuel i : ℕ} {output output' : Bytes}
    {result : Bool} (hfour : input.length % 4 = 0) (hi : i % 4 = 0)
    (hle : i ≤ input.length % unsignedMod)
    (h : decodeLoop charSigned input fuel i output = some (.ok (result, output'))) :
    output'.length ≤ output.length + (input.length % unsignedMod - i) / 4 * 3 := by
  have hmod : input.length % unsignedMod % 4 = 0 ∧ input.length % unsignedMod < 2 ^ 32 := by
    rw [unsignedMod]
    omega
  induction fuel generalizing i output with
  | zero => cases h
  | succ fuel ih =>
    by_cases hlt : i < input.length % unsignedMod
    swap
    · rw [decodeLoop_end hlt] at h
      cases h
      omega
    rw [decodeLoop, if_pos hlt, decodeBody_eq hi hlt] at h
    cases hgroup : decodeGroup charSigned (incr (i + 3)) output ((window input).drop i) with
    | error fault => rw [hgroup] at h; cases h
    | ok r =>
      rw [hgroup] at h
      rcases decodeGroup_cases hgroup with ⟨_, _, _, _, -, -, rfl, hlength⟩ | ⟨_, -, -, rfl⟩ |
        ⟨_, rfl, hlength⟩ | ⟨_, rfl, hlength, -, -⟩
      · cases h
        omega
      · cases h
        omega
      · cases h
        omega
      · have hincr : incr (i + 3) = i + 4 := Nat.mod_eq_of_lt (by rw [unsignedMod]; omega)
        simp only [hincr] at h
        have hrest := ih (by omega) (by omega) h
        omega

lemma getD_of_drop {input v : Bytes} {i : ℕ} {c : Byte} (h : (window input).drop i = c :: v) :
    input.getD i 0 = c := by
  rw [List.getD_eq_getElem?_getD, getElem?_of_drop h, Option.getD_some]

/-- The loop of `base64_encode` encodes what is left of the bytes that are read. -/
lemma encodeLoop_eq {input x : Bytes} {i : ℕ} (output : Bytes) (hi : i % 3 = 0)
    (h : (window input).drop i = x) {fuel : ℕ} (hfuel : x.length < fuel) :
    encodeLoop input fuel i output = some (output ++ base64Encode x) := by
  have hmod : input.length % unsignedMod < 2 ^ 32 := Nat.mod_lt _ (by decide)
  have hend : ∀ {fuel j : ℕ} {output : Bytes}, ¬ j < input.length % unsignedMod → 0 < fuel →
      encodeLoop input fuel j output = some output := by
    intro fuel j output hj hfuel
    obtain ⟨n, rfl⟩ := Nat.exists_eq_add_of_lt hfuel
    rw [Nat.zero_add, encodeLoop]
    exact if_neg hj
  induction x using base64Encode.induct generalizing i output fuel with
  | case1 => rw [hend (not_lt_of_drop h) (by omega), base64Encode, List.append_nil]
  | case2 c0 =>
    obtain ⟨n, rfl⟩ : ∃ n, fuel = n + 1 := ⟨fuel - 1, by omega⟩
    simp only [List.length_singleton] at hfuel
    have hlt := lt_of_drop h
    have h1 := not_lt_of_drop (drop_succ h)
    -- the index does not wrap around, as one byte is left
    have hincr : incr (i + 1) = i + 2 := Nat.mod_eq_of_lt (by rw [unsignedMod]; omega)
    simp only [encodeLoop, if_pos (lt_of_drop h), getD_of_drop h, incr_of_lt (lt_of_drop h),
      if_neg h1, hincr]
    rw [hend (by omega) (by omega)]
    simp [base64Encode]
  | case3 c0 c1 =>
    obtain ⟨n, rfl⟩ : ∃ n, fuel = n + 1 := ⟨fuel - 1, by omega⟩
    simp only [List.length_cons, List.length_nil] at hfuel
    have h1 := drop_succ h
    have hlt := lt_of_drop h1
    have h2 := not_lt_of_drop (drop_succ h1)
    have hincr : incr (i + 1 + 1) = i + 3 := Nat.mod_eq_of_lt (by rw [unsignedMod]; omega)
    simp only [encodeLoop, if_pos (lt_of_drop h), getD_of_drop h, incr_of_lt (lt_of_drop h),
      if_pos (lt_of_drop h1), getD_of_drop h1, incr_of_lt (lt_of_drop h1), if_neg h2, hincr]
    rw [hend (by omega) (by omega)]
    simp [base64Encode]
  | case4 c0 c1 c2 w ih =>
    obtain ⟨n, rfl⟩ : ∃ n, fuel = n + 1 := ⟨fuel - 1, by omega⟩
    simp only [List.length_cons] at hfuel
    have h1 := drop_succ h
    have h2 := drop_succ h1
    simp only [encodeLoop, if_pos (lt_of_drop h), getD_of_drop h, incr_of_lt (lt_of_drop h),
      if_pos (lt_of_drop h1), getD_of_drop h1, incr_of_lt (lt_of_drop h1), if_pos (lt_of_drop h2),
      getD_of_drop h2, incr_of_lt (lt_of_drop h2)]
    rw [ih _ (by omega) (drop_succ h2) (by omega)]
    simp [base64Encode]

lemma encodeLoop_add {input output : Bytes} {fuel i : ℕ} {r : Bytes}
    (h : encodeLoop input fuel i output = some r) (n : ℕ) :
    encodeLoop input (fuel + n) i output = some r := by
  induction fuel generalizing i output with
  | zero => cases h
  | succ fuel ih =>
    rw [Nat.add_right_comm]
    simp only [encodeLoop] at h ⊢
    split_ifs at h ⊢ with h0 h1 h2
    · exact ih h
    · exact ih h
    · exact ih h
    · exact h

/-- `base64_encode` ends, and encodes as many bytes as an `unsigned int` counts. -/
lemma encodes_iff {input output : Bytes} :
    Encodes input output ↔ output = base64Encode (window input) := by
  have heq := encodeLoop_eq [] rfl (List.drop_zero : (window input).drop 0 = _)
    (Nat.lt_succ_self _)
  constructor
  · rintro ⟨fuel, hfuel⟩
    have hsum := encodeLoop_add heq fuel
    rw [Nat.add_comm, encodeLoop_add hfuel] at hsum
    exact Option.some.inj hsum
  · rintro rfl
    exact ⟨_, heq⟩

/-- What `base64_encode` makes of a string is in base64, and `base64_decode` makes the string of
it. -/
def RoundTrips (charSigned : Bool) (x : Bytes) : Prop :=
  ∃ encoded, Encodes x encoded ∧ (∀ c ∈ encoded, IsLetter c ∨ c = 61) ∧
    encoded.length % 4 = 0 ∧ Decodes charSigned encoded (.ok (true, x))

lemma window_eq {input : Bytes} (h : input.length < unsignedMod) : window input = input := by
  rw [window, Nat.mod_eq_of_lt h, List.take_length]

/-- An encoding that is too long is decoded in part. -/
lemma not_roundTrips {charSigned : Bool} {x : Bytes} (h : 2 ^ 32 ≤ (x.length + 2) / 3 * 4) :
    ¬ RoundTrips charSigned x := by
  rintro ⟨encoded, hencodes, -, hfour, fuel, hfuel⟩
  obtain rfl := encodes_iff.1 hencodes
  have hlength := length_decodeLoop hfour rfl (Nat.zero_le _) hfuel
  rw [length_base64Encode, length_window, unsignedMod, List.length_nil] at hlength
  omega

/-- The round trip fails for strings whose encoding has `2 ^ 32` characters or more. -/
theorem roundTrips_iff (charSigned : Bool) (x : Bytes) :
    RoundTrips charSigned x ↔ (x.length + 2) / 3 * 4 < 2 ^ 32 := by
  constructor
  · intro h
    by_contra hle
    exact not_roundTrips (by omega) h
  · intro h
    have hx : window x = x := window_eq (by rw [unsignedMod]; omega)
    have hencoded : window (base64Encode x) = base64Encode x :=
      window_eq (by rw [length_base64Encode]; exact h)
    refine ⟨base64Encode x, encodes_iff.2 (by rw [hx]), (isBase64_base64Encode x).mem,
      (isBase64_base64Encode x).length_mod, ?_⟩
    exact decodeLoop_base64Encode charSigned [] rfl (by rw [List.drop_zero, hencoded])

/-- Three gigabytes of zeros are decoded to nothing. -/
theorem roundTrips_not : ¬ RoundTrips true (List.replicate (3 * 2 ^ 30) 0) :=
  not_roundTrips (by rw [List.length_replicate]; decide)

end PionCore.Common
