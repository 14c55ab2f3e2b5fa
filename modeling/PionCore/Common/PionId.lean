/-
# Identifiers

`PionId`: sixteen bytes of which the random ones are cut to fit the form of a version 4 identifier.
The text of an identifier has two digits for each byte and four dashes.  It is read back whatever
stood in the memory before, and texts are in the order of the identifiers (`text_faithful`);
`from_string` reads all layouts of the digits, and no others determine an identifier
(`determines_iff`).
-/
import Mathlib.Data.List.Basic
import PionCore.Lib.Ascii

namespace PionCore.Common

open PionCore.Lib

/-- `PION_ID_DATA_BYTES`. -/
def pionIdDataBytes : ℕ := 16

/-- `PionId`. -/
@[ext]
structure PionId where
  data : Bytes
  length_data : data.length = pionIdDataBytes
deriving DecidableEq

namespace PionId

/-! ### Texts -/

/-- `hex[x >> 4]` and `hex[x & 0x0f]`. -/
def hexPair (x : Byte) : Bytes := [digitChar (x.toNat / 16), digitChar (x.toNat % 16)]

/-- What the loop of `to_string` appends, from the index `i` on. -/
def toStringFrom : ℕ → Bytes → Bytes
  | _, [] => []
  | i, x :: data =>
      hexPair x ++ (if i = 3 ∨ i = 5 ∨ i = 7 ∨ i = 9 then [45] else []) ++
        toStringFrom (i + 1) data

def toString (id : PionId) : Bytes := toStringFrom 0 id.data

/-- The loop of `from_string`: the bytes that are stored, `n` at most.  The string ends with a
zero. -/
def storedFrom : ℕ → Bytes → Bytes
  | 0, _ => []
  | _ + 1, [] => []
  | n + 1, c :: str =>
      if c = 0 then []
      else if isHexDigit c then
        match str with
        | [] => []
        | d :: str =>
            if isHexDigit d then UInt8.ofNat (digitVal c * 16 + digitVal d) :: storedFrom n str
            else []
      else storedFrom (n + 1) str

lemma length_storedFrom_le (n : ℕ) (str : Bytes) : (storedFrom n str).length ≤ n := by
  fun_induction storedFrom n str with
  | case5 n c _ _ d str _ ih => simpa using ih
  | case7 n c str _ _ ih => exact ih
  | _ => simp

/-- `from_string`: what is not stored stays as it was. -/
def fromString (old : PionId) (str : Bytes) : PionId where
  data := storedFrom pionIdDataBytes str ++
    old.data.drop (storedFrom pionIdDataBytes str).length
  length_data := by
    have h := length_storedFrom_le pionIdDataBytes str
    rw [List.length_append, List.length_drop, old.length_data]
    omega

@[simp] lemma data_fromString (old : PionId) (str : Bytes) :
    (fromString old str).data = storedFrom pionIdDataBytes str ++
      old.data.drop (storedFrom pionIdDataBytes str).length := rfl

/-- `operator<`, with `memcmp`. -/
instance : LT PionId := ⟨fun a b => a.data < b.data⟩

instance (a b : PionId) : Decidable (a < b) := inferInstanceAs (Decidable (a.data < b.data))

/-- `generate`, from the bytes of the random numbers: the variant and the version are set. -/
def generate (random : PionId) : PionId where
  data := (random.data.modify 8 fun x => x &&& 0xBF ||| 0x80).modify 6
    fun x => x &&& 0x4F ||| 0x40
  length_data := by
    rw [List.length_modify, List.length_modify]
    exact random.length_data

/-! ### Reading texts -/

/-- A layout of the digits of some bytes: two digits for each byte, in any case, with other
characters in front of them, and any text behind the last pair. -/
inductive Layout : Bytes → Bytes → Prop
  | rest (str) : Layout [] str
  | skip {c data str} (hzero : c ≠ 0) (hother : isHexDigit c = false) (h : Layout data str) :
      Layout data (c :: str)
  | pair {c d x data str} (hc : isHexDigit c = true) (hd : isHexDigit d = true)
      (hvalue : UInt8.ofNat (digitVal c * 16 + digitVal d) = x) (h : Layout data str) :
      Layout (x :: data) (c :: d :: str)

lemma ne_zero_of_isHexDigit {c : Byte} (h : isHexDigit c = true) : c ≠ 0 := by
  rintro rfl
  exact absurd h (by decide)

/-- A layout is read. -/
lemma Layout.stored {data str : Bytes} (h : Layout data str) :
    storedFrom data.length str = data := by
  induction h with
  | rest str => rw [List.length_nil, storedFrom]
  | @skip c data str hzero hother h ih =>
    cases data with
    | nil => rw [List.length_nil, storedFrom]
    | cons x data =>
      rw [List.length_cons, storedFrom.eq_def]
      dsimp only
      rw [if_neg hzero, if_neg (by simp [hother])]
      exact ih
  | @pair c d x data str hc hd hvalue h ih =>
    rw [List.length_cons, storedFrom, if_neg (ne_zero_of_isHexDigit hc), if_pos hc]
    simp only [hd, if_true, hvalue, ih]

/-- What is stored has a layout. -/
lemma layout_storedFrom (n : ℕ) (str : Bytes) (h : (storedFrom n str).length = n) :
    Layout (storedFrom n str) str := by
  fun_induction storedFrom n str with
  | case1 str => exact .rest str
  | case5 n c _ hc d str hd ih =>
    exact .pair hc hd rfl (ih (by simpa using h))
  | case7 n c str hzero hother ih => exact .skip hzero (by simpa using hother) (ih h)
  | _ => simp at h

/-- A string is read as one identifier, whatever stood in the memory before, if and only if it is
a layout of its sixteen bytes. -/
theorem determines_iff (str : Bytes) (id : PionId) :
    (∀ old, fromString old str = id) ↔ Layout id.data str := by
  constructor
  · intro h
    have hlength : (storedFrom pionIdDataBytes str).length = pionIdDataBytes := by
      by_contra hne
      have hlt := lt_of_le_of_ne (length_storedFrom_le pionIdDataBytes str) hne
      -- two memories that differ in their last bytes
      have hconst : ∀ x : Byte, (fromString ⟨List.replicate 16 x, rfl⟩ str).data.getLast? =
          some x := by
        intro x
        rw [data_fromString, List.drop_replicate, List.getLast?_append, List.getLast?_replicate]
        rw [pionIdDataBytes] at hlt
        rw [pionIdDataBytes, if_neg (by omega)]
        rfl
      have hzero := hconst 0
      rw [h] at hzero
      have hone := hconst 1
      rw [h, hzero] at hone
      exact absurd (Option.some.inj hone) (by decide)
    have hdata := congrArg data (h id)
    have hdrop : id.data.drop pionIdDataBytes = [] := List.drop_of_length_le id.length_data.le
    rw [data_fromString, hlength, hdrop, List.append_nil] at hdata
    have hlayout := layout_storedFrom pionIdDataBytes str hlength
    rwa [hdata] at hlayout
  · intro h old
    have hstored := h.stored
    rw [id.length_data] at hstored
    refine PionId.ext ?_
    have hdrop : old.data.drop pionIdDataBytes = [] := List.drop_of_length_le old.length_data.le
    rw [data_fromString, hstored, id.length_data, hdrop, List.append_nil]

/-! ### The text of an identifier -/

/-- The text has the layout of its bytes, whatever follows. -/
lemma layout_toStringFrom (i : ℕ) (data rest : Bytes) :
    Layout data (toStringFrom i data ++ rest) := by
  induction data generalizing i with
  | nil => exact .rest rest
  | cons x data ih =>
    have hlt : x.toNat / 16 < 16 := by
      have := x.toNat_lt
      omega
    have hmod : x.toNat % 16 < 16 := Nat.mod_lt _ (by decide)
    have hvalue : UInt8.ofNat (digitVal (digitChar (x.toNat / 16)) * 16 +
        digitVal (digitChar (x.toNat % 16))) = x := by
      rw [digitVal_digitChar _ hlt, digitVal_digitChar _ hmod, Nat.div_add_mod']
      exact UInt8.ofNat_toNat
    have hpair (str : Bytes) (h : Layout data str) :
        Layout (x :: data) (digitChar (x.toNat / 16) :: digitChar (x.toNat % 16) :: str) :=
      .pair (isHexDigit_digitChar _ hlt) (isHexDigit_digitChar _ hmod) hvalue h
    rw [toStringFrom, hexPair]
    split_ifs
    · exact hpair _ (.skip (by decide) (by decide) (ih (i + 1)))
    · exact hpair _ (ih (i + 1))

lemma digitChar_lt_iff : ∀ m < 16, ∀ n < 16, digitChar m < digitChar n ↔ m < n := by decide

lemma digitChar_inj : ∀ m < 16, ∀ n < 16, digitChar m = digitChar n ↔ m = n := by decide

/-- Pairs of digits are in the order of their bytes. -/
lemma hexPair_lt_iff (x y : Byte) (s t : Bytes) :
    hexPair x ++ s < hexPair y ++ t ↔ x < y ∨ x = y ∧ s < t := by
  have hx := x.toNat_lt
  have hy := y.toNat_lt
  have hhigh := digitChar_lt_iff (x.toNat / 16) (by omega) (y.toNat / 16) (by omega)
  have hhigh' := digitChar_inj (x.toNat / 16) (by omega) (y.toNat / 16) (by omega)
  have hlow := digitChar_lt_iff (x.toNat % 16) (by omega) (y.toNat % 16) (by omega)
  have hlow' := digitChar_inj (x.toNat % 16) (by omega) (y.toNat % 16) (by omega)
  have hdiv := Nat.div_add_mod x.toNat 16
  have hdiv' := Nat.div_add_mod y.toNat 16
  simp only [hexPair, List.cons_append, List.nil_append, List.cons_lt_cons_iff, hhigh, hhigh',
    hlow, hlow', UInt8.lt_iff_toNat_lt, ← UInt8.toNat_inj]
  constructor
  · rintro (h | ⟨h, h' | ⟨h', h''⟩⟩)
    · exact Or.inl (by omega)
    · exact Or.inl (by omega)
    · exact Or.inr ⟨by omega, h''⟩
  · rintro (h | ⟨h, h'⟩)
    · rcases Nat.lt_or_ge (x.toNat / 16) (y.toNat / 16) with hlt | hge
      · exact Or.inl hlt
      · exact Or.inr ⟨by omega, Or.inl (by omega)⟩
    · exact Or.inr ⟨by omega, Or.inr ⟨by omega, h'⟩⟩

lemma toStringFrom_lt_iff (i : ℕ) {data data' : Bytes} (h : data.length = data'.length) :
    toStringFrom i data < toStringFrom i data' ↔ data < data' := by
  induction data generalizing i data' with
  | nil =>
    obtain rfl : data' = [] := List.length_eq_zero_iff.1 h.symm
    rfl
  | cons x data ih =>
    obtain ⟨y, data', rfl⟩ : ∃ y rest, data' = y :: rest :=
      List.exists_cons_of_length_pos (by rw [← h]; simp)
    have hlength : data.length = data'.length := by simpa using h
    have hrest := ih (i + 1) hlength
    rw [toStringFrom, toStringFrom, List.append_assoc, List.append_assoc, hexPair_lt_iff,
      List.cons_lt_cons_iff]
    split_ifs
    · rw [List.cons_append, List.cons_append, List.cons_lt_cons_iff, List.nil_append,
        List.nil_append, hrest]
      simp
    · rw [List.nil_append, List.nil_append, hrest]

/-- The text of an identifier is read back, whatever stood in the memory before and whatever
follows the text, and texts are in the order of the identifiers. -/
theorem text_faithful (a b old : PionId) (rest : Bytes) :
    fromString old (a.toString ++ rest) = a ∧ (a.toString < b.toString ↔ a < b) :=
  ⟨(determines_iff _ a).2 (layout_toStringFrom 0 a.data rest) old,
    toStringFrom_lt_iff 0 (a.length_data.trans b.length_data.symm)⟩

/-! ### Identifiers that are generated -/

lemma version_digit (x : Byte) : (x &&& 0x4F ||| 0x40).toNat / 16 = 4 := by
  have hall : ∀ n < 256, (UInt8.ofNat n &&& 0x4F ||| 0x40).toNat / 16 = 4 := by decide +kernel
  have hx := hall x.toNat x.toNat_lt
  rwa [UInt8.ofNat_toNat] at hx

lemma variant_digit (x : Byte) :
    digitChar ((x &&& 0xBF ||| 0x80).toNat / 16) ∈ ascii "89ab" := by
  have hall : ∀ n < 256, digitChar ((UInt8.ofNat n &&& 0xBF ||| 0x80).toNat / 16) ∈
    ascii "89ab" := by decide +kernel
  have hx := hall x.toNat x.toNat_lt
  rwa [UInt8.ofNat_toNat] at hx

/-- The text of an identifier that is generated has the digits of its version and of its
variant. -/
theorem toString_generate (random : PionId) :
    (generate random).toString[14]? = some 52 ∧
      ∃ c ∈ ascii "89ab", (generate random).toString[19]? = some c := by
  obtain ⟨data, hlength⟩ := random
  match data, hlength with
  | [x0, x1, x2, x3, x4, x5, x6, x7, x8, x9, x10, x11, x12, x13, x14, x15], _ =>
    have hversion : (generate ⟨[x0, x1, x2, x3, x4, x5, x6, x7, x8, x9, x10, x11, x12, x13, x14,
        x15], rfl⟩).toString[14]? = some (digitChar ((x6 &&& 0x4F ||| 0x40).toNat / 16)) := rfl
    rw [version_digit] at hversion
    exact ⟨hversion, _, variant_digit x8, rfl⟩

end PionId

end PionCore.Common
