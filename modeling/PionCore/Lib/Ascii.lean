/-
# Byte strings and their numerals

Strings are lists of bytes.  Case is folded for the letters `A` to `Z` only, as in the
C locale.  Numbers are printed in base 10 or 16 with the most significant digit first,
and read back by Horner's rule; `readNumeral_numeral` says that the two are inverse, and
`readNumeral_mod` that a reader which reduces modulo a word size at every digit computes
the number modulo that word size.
-/
import Mathlib.Data.Nat.Digits.Lemmas
import Mathlib.Tactic.Common

namespace PionCore.Lib

/-- A character of a `std::string`. -/
abbrev Byte : Type := UInt8

/-- A `std::string`. -/
abbrev Bytes : Type := List UInt8

/-- The bytes of an ASCII literal. -/
def ascii (s : String) : Bytes := s.toList.map Char.toUInt8

/-- `tolower` of the C locale. -/
def toLower (c : Byte) : Byte := if 65 ≤ c ∧ c ≤ 90 then c + 32 else c

/-- `isspace` of the C locale. -/
def isSpace (c : Byte) : Bool := c = 32 ∨ 9 ≤ c ∧ c ≤ 13

/-- Removal of the white space at both ends (`boost::algorithm::trim`). -/
def trim (s : Bytes) : Bytes := ((s.dropWhile isSpace).reverse.dropWhile isSpace).reverse

/-- Equality of strings up to the case of the letters. -/
def equalIgnoreCase (s t : Bytes) : Bool := s.map toLower = t.map toLower

@[simp] lemma equalIgnoreCase_self (s : Bytes) : equalIgnoreCase s s = true := by
  simp [equalIgnoreCase]

lemma equalIgnoreCase_comm (s t : Bytes) : equalIgnoreCase s t = equalIgnoreCase t s := by
  simp [equalIgnoreCase, eq_comm]

lemma equalIgnoreCase_congr {s t : Bytes} (h : equalIgnoreCase s t = true) (u : Bytes) :
    equalIgnoreCase s u = equalIgnoreCase t u := by
  simp only [equalIgnoreCase, decide_eq_true_eq] at h ⊢
  rw [h]

/-- Whether `t` occurs in `s`, up to the case of the letters. -/
def containsIgnoreCase (s t : Bytes) : Bool :=
  (s.map toLower).tails.any fun u => (t.map toLower).isPrefixOf u

/-! ### Numerals -/

def isDigit (c : Byte) : Bool := 48 ≤ c ∧ c ≤ 57

def isHexDigit (c : Byte) : Bool :=
  48 ≤ c ∧ c ≤ 57 ∨ 97 ≤ c ∧ c ≤ 102 ∨ 65 ≤ c ∧ c ≤ 70

/-- The value of a (hexadecimal) digit. -/
def digitVal (c : Byte) : ℕ :=
  if c ≤ 57 then c.toNat - 48 else if 97 ≤ c then c.toNat - 87 else c.toNat - 55

/-- The digit of a value below 16, in lower case. -/
def digitChar (d : ℕ) : Byte := if d < 10 then UInt8.ofNat (48 + d) else UInt8.ofNat (87 + d)

/-- The numeral of `n` in base `b`, most significant digit first. -/
def numeral (b n : ℕ) : Bytes := if n = 0 then [48] else (b.digits n).reverse.map digitChar

/-- Horner's rule. -/
def readNumeral (b : ℕ) (ds : Bytes) : ℕ := ds.foldl (fun acc c => acc * b + digitVal c) 0

lemma digitVal_digitChar : ∀ d < 16, digitVal (digitChar d) = d := by decide

lemma isDigit_digitChar : ∀ d < 10, isDigit (digitChar d) = true := by decide

lemma isHexDigit_digitChar : ∀ d < 16, isHexDigit (digitChar d) = true := by decide

lemma numeral_ne_nil (b n : ℕ) : numeral b n ≠ [] := by
  by_cases hn : n = 0
  · simp [numeral, hn]
  · simpa [numeral, hn] using Nat.digits_ne_nil_iff_ne_zero.2 hn

lemma mem_numeral {b n : ℕ} (hb : 1 < b) {c : Byte} (h : c ∈ numeral b n) :
    ∃ d < b, c = digitChar d := by
  by_cases hn : n = 0
  · refine ⟨0, by omega, ?_⟩
    simpa [numeral, hn, digitChar] using h
  · simp only [numeral, hn, if_false, List.mem_map, List.mem_reverse] at h
    obtain ⟨d, hd, rfl⟩ := h
    exact ⟨d, Nat.digits_lt_base hb hd, rfl⟩

lemma isDigit_of_mem_numeral {n : ℕ} {c : Byte} (h : c ∈ numeral 10 n) : isDigit c = true := by
  obtain ⟨d, hd, rfl⟩ := mem_numeral (by omega) h
  exact isDigit_digitChar d hd

lemma isHexDigit_of_mem_numeral {n : ℕ} {c : Byte} (h : c ∈ numeral 16 n) :
    isHexDigit c = true := by
  obtain ⟨d, hd, rfl⟩ := mem_numeral (by omega) h
  exact isHexDigit_digitChar d hd

lemma length_numeral {n k : ℕ} (hk : 0 < k) (hn : n < 10 ^ k) : (numeral 10 n).length ≤ k := by
  rw [numeral]
  split_ifs with h
  · exact hk
  · rw [List.length_map, List.length_reverse]
    exact (Nat.digits_length_le_iff (by omega) n).2 hn

lemma foldl_map_digitChar {b : ℕ} (hb : b ≤ 16) (ds : List ℕ) (hds : ∀ d ∈ ds, d < b)
    (acc : ℕ) :
    (ds.map digitChar).foldl (fun acc c => acc * b + digitVal c) acc =
      ds.foldl (fun acc d => acc * b + d) acc := by
  induction ds generalizing acc with
  | nil => rfl
  | cons d ds ih =>
    have hd : digitVal (digitChar d) = d :=
      digitVal_digitChar d (lt_of_lt_of_le (hds d (by simp)) hb)
    simp only [List.map_cons, List.foldl_cons, hd]
    exact ih (fun e he => hds e (by simp [he])) _

/-- A printed number is read back. -/
theorem readNumeral_numeral {b : ℕ} (hb : 1 < b) (hb' : b ≤ 16) (n : ℕ) :
    readNumeral b (numeral b n) = n := by
  by_cases hn : n = 0
  · simp [numeral, hn, readNumeral, digitVal]
  · have hlt : ∀ d ∈ (b.digits n).reverse, d < b := fun d hd =>
      Nat.digits_lt_base hb (List.mem_reverse.1 hd)
    rw [numeral, if_neg hn, readNumeral, foldl_map_digitChar hb' _ hlt, List.foldl_reverse]
    have hval := Nat.ofDigits_eq_foldr b (b.digits n)
    rw [Nat.ofDigits_digits] at hval
    calc (b.digits n).foldr (fun d acc => acc * b + d) 0
        = (b.digits n).foldr (fun x y => (x : ℕ) + b * y) 0 := by
          congr 1
          funext d acc
          ring_nf
      _ = n := by simpa using hval.symm

/-- Reducing modulo a word size at every digit. -/
lemma readNumeral_mod (b m : ℕ) (ds : Bytes) (acc : ℕ) :
    ds.foldl (fun acc c => (acc * b + digitVal c) % m) (acc % m) =
      ds.foldl (fun acc c => acc * b + digitVal c) acc % m := by
  induction ds generalizing acc with
  | nil => rfl
  | cons c ds ih =>
    simp only [List.foldl_cons]
    rw [← ih]
    congr 1
    rw [Nat.add_mod, Nat.mul_mod, Nat.mod_mod, ← Nat.mul_mod, ← Nat.add_mod]

lemma isSpace_of_isDigit {c : Byte} (h : isDigit c = true) : isSpace c = false := by
  simp only [isDigit, decide_eq_true_eq, UInt8.le_iff_toNat_le] at h
  simp only [isSpace, decide_eq_false_iff_not, UInt8.le_iff_toNat_le, ← UInt8.toNat_inj]
  change 48 ≤ c.toNat ∧ c.toNat ≤ 57 at h
  change ¬ (c.toNat = 32 ∨ 9 ≤ c.toNat ∧ c.toNat ≤ 13)
  omega

/-! ### `boost::lexical_cast` to an unsigned type -/

/-- The conversion of a text to an unsigned integer below `bound`: an optional sign, then
digits only.  A minus sign negates the value modulo `bound`, as `scanf` has it; a value
that does not fit is an error. -/
def lexicalCast (bound : ℕ) (s : Bytes) : Option ℕ :=
  match s with
  | 43 :: ds => readUnsigned ds
  | 45 :: ds => (readUnsigned ds).map fun n => (bound - n) % bound
  | ds => readUnsigned ds
where
  readUnsigned (ds : Bytes) : Option ℕ :=
    if ds ≠ [] ∧ ds.all isDigit ∧ readNumeral 10 ds < bound then some (readNumeral 10 ds)
    else none

lemma readUnsigned_lt {bound n : ℕ} {ds : Bytes}
    (h : lexicalCast.readUnsigned bound ds = some n) : n < bound := by
  rw [lexicalCast.readUnsigned] at h
  split_ifs at h with hds
  exact Option.some.inj h ▸ hds.2.2

/-- A conversion that does not fail gives a number of the type. -/
lemma lexicalCast_lt {bound n : ℕ} {s : Bytes} (h : lexicalCast bound s = some n) :
    n < bound := by
  unfold lexicalCast at h
  split at h
  · exact readUnsigned_lt h
  · obtain ⟨k, hk, rfl⟩ := Option.map_eq_some_iff.1 h
    exact Nat.mod_lt _ (lt_of_le_of_lt (Nat.zero_le k) (readUnsigned_lt hk))
  · exact readUnsigned_lt h

lemma readUnsigned_numeral {bound n : ℕ} (h : n < bound) :
    lexicalCast.readUnsigned bound (numeral 10 n) = some n := by
  have hall : (numeral 10 n).all isDigit = true :=
    List.all_eq_true.2 fun c hc => isDigit_of_mem_numeral hc
  simp only [lexicalCast.readUnsigned, hall, readNumeral_numeral (by omega : 1 < 10)
    (by omega), ne_eq, numeral_ne_nil, not_false_eq_true, h, and_self, if_true]

/-- The text of a number that fits is converted back to it. -/
lemma lexicalCast_numeral {bound n : ℕ} (h : n < bound) :
    lexicalCast bound (numeral 10 n) = some n := by
  have hhead : ∀ c ds, numeral 10 n = c :: ds → isDigit c = true := fun c ds hc =>
    isDigit_of_mem_numeral (hc ▸ List.mem_cons_self)
  unfold lexicalCast
  split
  · rename_i ds hs
    exact absurd (hhead _ _ hs) (by decide)
  · rename_i ds hs
    exact absurd (hhead _ _ hs) (by decide)
  · exact readUnsigned_numeral h

lemma trim_eq_self {s : Bytes} (h : ∀ c ∈ s, isSpace c = false) : trim s = s := by
  have hdrop : ∀ t : Bytes, (∀ c ∈ t, isSpace c = false) → t.dropWhile isSpace = t := by
    intro t ht
    cases t with
    | nil => rfl
    | cons c t => simp [ht c (by simp)]
  rw [trim, hdrop s h, hdrop s.reverse (fun c hc => h c (List.mem_reverse.1 hc)),
    List.reverse_reverse]

end PionCore.Lib
