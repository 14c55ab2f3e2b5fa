/-
# Clean text

`make_utf8_blob` stores a text that is valid UTF-8 as it is, without an incomplete character at its
end, and otherwise has the ICU library replace what is ill-formed.  The blob of a replaced text
keeps the size that was reserved for it, which is right only if every ill-formed sequence has one
byte; and the lengths are cut to 32 bits on their way to the library (`storesClean_iff`).
-/
import Mathlib.Data.List.GetD
import PionCore.Lib.UTF8

namespace PionCore.Platform.EventValidator

open PionCore.Lib

/-- A part of a text, as the library finds them: a character, or an ill-formed sequence that is
replaced as a whole. -/
inductive Piece where
  | char (c : Char)
  | ill (s : Bytes)

namespace Piece

def bytes : Piece → Bytes
  | char c => String.utf8EncodeChar c
  | ill s => s

def isIll : Piece → Bool
  | char _ => false
  | ill _ => true

/-- The replacement character is U+FFFD. -/
def cleansed : Piece → Bytes
  | char c => String.utf8EncodeChar c
  | ill _ => [239, 191, 189]

end Piece

/-- What is used of the ICU library: the parts of a text that its conversions find, and its macros
for lead bytes, which differ between versions for bytes that no character has. -/
structure ICU where
  pieces : Bytes → List Piece
  isLead : Byte → Bool
  countTrailBytes : Byte → ℕ

/-- `U8_IS_SINGLE`. -/
def isSingle (b : Byte) : Bool := b < 128

/-- `U8_IS_TRAIL`. -/
def isTrail (b : Byte) : Bool := 128 ≤ b ∧ b < 192

/-- What the library says of its conversions and macros. -/
structure ICU.Documented (icu : ICU) : Prop where
  bytes : ∀ s, (icu.pieces s).flatMap Piece.bytes = s
  ill : ∀ s t, .ill t ∈ icu.pieces s → t ≠ []
  valid : ∀ s, ValidUTF8 s → ∀ q ∈ icu.pieces s, q.isIll = false
  lead : ∀ c b t, String.utf8EncodeChar c = b :: t → t ≠ [] →
    icu.isLead b = true ∧ icu.countTrailBytes b = t.length

variable (icu : ICU)

/-- The library finds no ill-formed sequence. -/
def ICU.accepts (s : Bytes) : Bool := (icu.pieces s).all fun q => ! q.isIll

/-- The number of substitutions. -/
def ICU.substitutions (s : Bytes) : ℕ := (icu.pieces s).countP Piece.isIll

/-- The text behind the conversion to UTF-16 and back. -/
def ICU.cleanse (s : Bytes) : Bytes := (icu.pieces s).flatMap Piece.cleansed

/-- A length as an `int32_t`. -/
def toInt32 (n : ℕ) : ℤ := Int.bmod n (2 ^ 32)

/-- The text that the library is given with a length: up to the first zero for `-1`; another
negative length is an error. -/
def source (p : Bytes) (len : ℕ) : Option Bytes :=
  if toInt32 len < -1 then none
  else if toInt32 len = -1 then some (p.takeWhile (· != 0))
  else some (p.take (toInt32 len).toNat)

/-- The loop that goes back over trail bytes, from a position on: where it stops, or `none` in front
of the text. -/
def backUp (p : Bytes) : ℕ → Option ℕ
  | 0 => if isTrail (p.getD 0 0) ∧ p.length ≤ 4 then none else some 0
  | i + 1 =>
    if isTrail (p.getD (i + 1) 0) ∧ p.length - (i + 1) ≤ 4 then backUp p i else some (i + 1)

/-- The offset of an incomplete character at the end, or the length, seen from the position of the
last byte; `none`: the text is not valid. -/
def trimAt (p : Bytes) (i : ℕ) : Option ℕ :=
  if isSingle (p.getD i 0) then some p.length
  else
    (backUp p i).bind fun i =>
      if 4 < p.length - i then none
      else if ! icu.isLead (p.getD i 0) then none
      else if i + icu.countTrailBytes (p.getD i 0) < p.length - 1 then none
      else if p.length - 1 < i + icu.countTrailBytes (p.getD i 0) then some i
      else some p.length

/-- `isValidUTF8` with a pointer for the trimmed length: that length, or `none` if the text is not
valid.  It throws, or reads in front of the text, where there is no result: its position of the last
byte is an `int`. -/
def isValidUTF8 (p : Bytes) : Option (Option ℕ) :=
  if p = [] then some (some 0)
  else if toInt32 (p.length - 1) < 0 then none
  else
    match trimAt icu p (toInt32 (p.length - 1)).toNat with
    | none => some none
    | some 0 => some (some 0)
    | some (offset + 1) =>
      (source p (offset + 1)).bind fun s =>
        if s = [] then none else some (if icu.accepts s then some (offset + 1) else none)

/-- `isValidUTF8` without that pointer. -/
def isValidWhole (p : Bytes) : Option Bool :=
  if p = [] then some true
  else (source p p.length).bind fun s => if s = [] then none else some (icu.accepts s)

/-- `getCleansedUTF8Length` and `cleanseUTF8`, with what the memory of the new blob holds.  The size
of the blob is the one that was reserved.  A product beyond 31 bits is undefined, and a buffer that
is too small throws. -/
def cleanseUTF8 (memory : ℕ → Bytes) (p : Bytes) : Option Bytes :=
  (source p p.length).bind fun s =>
    if 2 ^ 31 ≤ 2 * icu.substitutions s then none
    else if toInt32 (p.length + 2 * icu.substitutions s) < (icu.cleanse s).length then none
    else
      -- the library writes a terminator, if there is room for it
      some (icu.cleanse s ++
        if ((icu.cleanse s).length : ℤ) < toInt32 (p.length + 2 * icu.substitutions s) then
          0 :: memory (p.length + 2 * icu.substitutions s - (icu.cleanse s).length - 1)
        else memory (p.length + 2 * icu.substitutions s - (icu.cleanse s).length))

/-- `make_utf8_blob` of a string or a buffer. -/
def makeUTF8Blob (memory : ℕ → Bytes) (p : Bytes) : Option Bytes :=
  (isValidUTF8 icu p).bind fun valid =>
    match valid with
    | some trimmed => some (p.take trimmed)
    | none => cleanseUTF8 icu memory p

/-- `make_utf8_blob` of a blob. -/
def makeUTF8BlobOfBlob (memory : ℕ → Bytes) (b : Bytes) : Option Bytes :=
  (isValidWhole icu b).bind fun valid => if valid then some b else cleanseUTF8 icu memory b

/-! ### What it is to do -/

/-- The text without an incomplete character at its end, unless it is not valid. -/
def trimmed (p : Bytes) : Option ℕ := if p = [] then some 0 else trimAt icu p (p.length - 1)

/-- The text without an incomplete character at its end, if that is valid, and else with
replacements. -/
def cleansedText (p : Bytes) : Bytes :=
  match trimmed icu p with
  | some o => if icu.accepts (p.take o) then p.take o else icu.cleanse p
  | none => icu.cleanse p

/-- A blob is made, which is valid, has the size of the cleansed text, and is the text itself if
that is valid; and it is not changed by another call. -/
def StoresClean (memory : ℕ → Bytes) (p : Bytes) : Prop :=
  ∃ b, makeUTF8Blob icu memory p = some b ∧ ValidUTF8 b ∧
    b.length = (cleansedText icu p).length ∧ (ValidUTF8 p → b = p) ∧
    makeUTF8Blob icu memory b = some b ∧ makeUTF8BlobOfBlob icu memory b = some b

/-- The text is shorter than 2^31 bytes when it has been trimmed, and is valid then; or every
ill-formed sequence has one byte, and also the cleansed text is shorter than that.  Of the longer
texts only valid ones are stored, whose lengths are small modulo 2^32, and of which what is left of
the length ends with a character of ASCII. -/
def Cleansable (p : Bytes) : Prop :=
  (p.length ≤ 2 ^ 31 ∧ ∃ o, trimmed icu p = some o ∧ o < 2 ^ 31 ∧ ValidUTF8 (p.take o)) ∨
  (p.length + 2 * icu.substitutions p < 2 ^ 31 ∧
    ∀ s, .ill s ∈ icu.pieces p → s.length = 1) ∨
  (2 ^ 31 < p.length ∧ (p.length - 1) % 2 ^ 32 < 2 ^ 31 - 1 ∧
    isSingle (p.getD ((p.length - 1) % 2 ^ 32) 0) = true ∧ ValidUTF8 p)

variable {icu} {memory : ℕ → Bytes} {p b s t : Bytes} {i o : ℕ}

/-! ### Lengths -/

lemma toInt32_eq (n : ℕ) : toInt32 n =
    if n % 4294967296 < 2147483648 then ((n % 4294967296 : ℕ) : ℤ)
    else ((n % 4294967296 : ℕ) : ℤ) - 4294967296 := by
  have h : toInt32 n = Int.bmod n 4294967296 := rfl
  rw [h, Int.bmod_def]
  split_ifs <;> omega

lemma toInt32_of_lt {n : ℕ} (h : n < 2 ^ 31) : toInt32 n = n := by
  rw [toInt32_eq]
  split_ifs <;> omega

lemma source_of_lt {len : ℕ} (h : len < 2 ^ 31) : source p len = some (p.take len) := by
  have hlen := toInt32_of_lt h
  have hlow : ¬ toInt32 len < -1 := by omega
  have hne : ¬ toInt32 len = -1 := by omega
  rw [source, if_neg hlow, if_neg hne, hlen, Int.toNat_natCast]

/-! ### Characters -/

/-- A character has one byte of ASCII, or a lead byte and up to three trail bytes. -/
lemma encode_cases (c : Char) : (∃ b, String.utf8EncodeChar c = [b] ∧ isSingle b = true) ∨
    ∃ b t, String.utf8EncodeChar c = b :: t ∧ t ≠ [] ∧ t.length ≤ 3 ∧ isSingle b = false ∧
      isTrail b = false ∧ ∀ x ∈ t, isTrail x = true ∧ isSingle x = false := by
  rw [String.utf8EncodeChar.eq_def]
  dsimp only
  have hv := c.val.toNat_lt
  generalize c.val.toNat = n at hv
  have hsingle : ∀ m < 128, isSingle (UInt8.ofNat m) = true := by decide +kernel
  have hlead : ∀ m < 64, isSingle (UInt8.ofNat (m + 192)) = false ∧
      isTrail (UInt8.ofNat (m + 192)) = false := by
    decide +kernel
  have htrail : ∀ m < 64, isTrail (UInt8.ofNat (m + 128)) = true ∧
      isSingle (UInt8.ofNat (m + 128)) = false := by
    decide +kernel
  have hmod : ∀ k, isTrail (UInt8.ofNat (k % 64 + 128)) = true ∧
      isSingle (UInt8.ofNat (k % 64 + 128)) = false := fun k =>
    htrail (k % 64) (Nat.mod_lt _ (by decide))
  split_ifs with h1 h2 h3
  · exact Or.inl ⟨_, rfl, hsingle n (by omega)⟩
  · have hfirst := hlead (n / 64 % 32) (by omega)
    exact Or.inr ⟨_, _, rfl, by simp, by simp, hfirst.1, hfirst.2,
      List.forall_mem_singleton.2 (hmod n)⟩
  · have hfirst := hlead (n / 4096 % 16 + 32) (by omega)
    rw [Nat.add_assoc] at hfirst
    exact Or.inr ⟨_, _, rfl, by simp, by simp, hfirst.1, hfirst.2,
      List.forall_mem_cons.2 ⟨hmod (n / 64), List.forall_mem_singleton.2 (hmod n)⟩⟩
  · have hfirst := hlead (n / 262144 % 8 + 48) (by omega)
    rw [Nat.add_assoc] at hfirst
    exact Or.inr ⟨_, _, rfl, by simp, by simp, hfirst.1, hfirst.2,
      List.forall_mem_cons.2 ⟨hmod (n / 4096),
        List.forall_mem_cons.2 ⟨hmod (n / 64), List.forall_mem_singleton.2 (hmod n)⟩⟩⟩

/-- The library accepts just the valid texts. -/
lemma ICU.Documented.accepts_iff (h : icu.Documented) : icu.accepts s = true ↔ ValidUTF8 s := by
  rw [ICU.accepts, List.all_eq_true]
  constructor
  · intro hall
    have hchars : ∀ l : List Piece, (∀ q ∈ l, (! q.isIll) = true) →
        ValidUTF8 (l.flatMap Piece.bytes) := by
      intro l hl
      induction l with
      | nil => exact ValidUTF8.nil
      | cons q l ih =>
        obtain ⟨hq, hl⟩ := List.forall_mem_cons.1 hl
        rw [List.flatMap_cons]
        refine ValidUTF8.append ?_ (ih hl)
        cases q with
        | char c => exact ⟨[c], by simp [Piece.bytes]⟩
        | ill s => cases hq
    have hvalid := hchars _ hall
    rwa [h.bytes] at hvalid
  · intro hvalid q hq
    rw [h.valid s hvalid q hq]
    rfl

/-- A text with replacements is valid. -/
lemma validUTF8_cleanse (s : Bytes) : ValidUTF8 (icu.cleanse s) := by
  rw [ICU.cleanse]
  induction icu.pieces s with
  | nil => exact ValidUTF8.nil
  | cons q l ih =>
    rw [List.flatMap_cons]
    refine ValidUTF8.append ?_ ih
    cases q with
    | char c => exact ⟨[c], by simp [Piece.cleansed]⟩
    | ill s =>
      have hchar : ([239, 191, 189] : Bytes) =
          [Char.ofNat 65533].flatMap String.utf8EncodeChar := by decide
      exact ⟨_, hchar⟩

/-- Where sequences of more bytes are replaced, the text is shorter than what was reserved. -/
lemma length_cleansed (l : List Piece) (hill : ∀ t, .ill t ∈ l → t ≠ []) :
    (l.flatMap Piece.cleansed).length ≤
        (l.flatMap Piece.bytes).length + 2 * l.countP Piece.isIll ∧
      ((l.flatMap Piece.cleansed).length =
          (l.flatMap Piece.bytes).length + 2 * l.countP Piece.isIll ↔
        ∀ t, .ill t ∈ l → t.length = 1) := by
  induction l with
  | nil => exact ⟨le_rfl, iff_of_true rfl (by simp)⟩
  | cons q l ih =>
    obtain ⟨hle, hiff⟩ := ih fun t ht => hill t (List.mem_cons_of_mem q ht)
    rw [List.flatMap_cons, List.flatMap_cons, List.length_append, List.length_append,
      List.countP_cons]
    cases q with
    | char c =>
      have hmem : (∀ t, Piece.ill t ∈ Piece.char c :: l → t.length = 1) ↔
          ∀ t, .ill t ∈ l → t.length = 1 := by
        simp
      rw [hmem, ← hiff, if_neg (by simp [Piece.isIll])]
      simp only [Piece.cleansed, Piece.bytes]
      constructor
      · omega
      · constructor <;> intro h <;> omega
    | ill s =>
      -- three bytes come for the sequence, and two were reserved besides its own
      have hpos : 0 < s.length := List.length_pos_iff.2 (hill s List.mem_cons_self)
      have hmem : (∀ t, Piece.ill t ∈ Piece.ill s :: l → t.length = 1) ↔
          s.length = 1 ∧ ∀ t, .ill t ∈ l → t.length = 1 := by
        simp only [List.mem_cons, Piece.ill.injEq, forall_eq_or_imp]
      rw [hmem, ← hiff, if_pos (by rfl)]
      simp only [Piece.cleansed, Piece.bytes, List.length_cons, List.length_nil]
      constructor
      · omega
      · constructor
        · intro h
          omega
        · rintro ⟨h1, h2⟩
          omega

/-! ### Trimming -/

/-- The loop goes back over the trail bytes of a character. -/
lemma backUp_trail {front : Bytes} {x : Byte} (hp : p = front ++ x :: t)
    (hx : isTrail x = false) (ht : ∀ y ∈ t, isTrail y = true) (hlen : t.length ≤ 3) {k : ℕ}
    (hk : k ≤ t.length) : backUp p (front.length + k) = some front.length := by
  induction k with
  | zero =>
    have hget : p.getD front.length 0 = x := by
      rw [hp, List.getD_append_right _ _ _ _ le_rfl, Nat.sub_self]
      rfl
    rw [Nat.add_zero]
    cases hfront : front.length with
    | zero =>
      rw [hfront] at hget
      rw [backUp, hget, hx, if_neg (by simp)]
    | succ i =>
      rw [hfront] at hget
      rw [backUp, hget, hx, if_neg (by simp)]
  | succ k ih =>
    have hget : isTrail (p.getD (front.length + k + 1) 0) = true := by
      rw [hp, List.getD_append_right _ _ _ _ (by omega),
        show front.length + k + 1 - front.length = k + 1 by omega, List.getD_cons_succ,
        List.getD_eq_getElem _ _ (by omega)]
      exact ht _ (List.getElem_mem _)
    have hlength : p.length = front.length + t.length + 1 := by
      rw [hp, List.length_append, List.length_cons]
      omega
    rw [← Nat.add_assoc, backUp, if_pos ⟨hget, by omega⟩]
    exact ih (by omega)

/-- A valid text is not trimmed. -/
lemma ICU.Documented.trimAt_valid (h : icu.Documented) (hp : ValidUTF8 p) (hne : p ≠ []) :
    trimAt icu p (p.length - 1) = some p.length := by
  obtain ⟨cs, hcs⟩ := hp
  rcases List.eq_nil_or_concat cs with rfl | ⟨init, c, rfl⟩
  · exact absurd hcs hne
  rw [List.concat_eq_append, List.flatMap_append, List.flatMap_singleton] at hcs
  obtain ⟨front, hfront⟩ : ∃ l, l = init.flatMap String.utf8EncodeChar := ⟨_, rfl⟩
  rw [← hfront] at hcs
  rcases encode_cases c with ⟨x, hx, hsingle⟩ | ⟨x, t, hx, htne, hlen, hsingle, htrail, ht⟩
  · have hget : p.getD (p.length - 1) 0 = x := by
      rw [hcs, hx, List.length_append, List.length_singleton, Nat.add_sub_cancel,
        List.getD_append_right _ _ _ _ le_rfl, Nat.sub_self]
      rfl
    rw [trimAt, hget, hsingle, if_pos rfl]
  · rw [hx] at hcs
    have hpos := List.length_pos_iff.2 htne
    have hlength : p.length = front.length + t.length + 1 := by
      rw [hcs, List.length_append, List.length_cons]
      omega
    have hget : p.getD front.length 0 = x := by
      rw [hcs, List.getD_append_right _ _ _ _ le_rfl, Nat.sub_self]
      rfl
    have hlast : isSingle (p.getD (p.length - 1) 0) = false := by
      rw [hcs, List.length_append, List.length_cons,
        List.getD_append_right _ _ _ _ (by omega),
        show front.length + (t.length + 1) - 1 - front.length = (t.length - 1) + 1 by omega,
        List.getD_cons_succ, List.getD_eq_getElem _ _ (by omega)]
      exact (ht _ (List.getElem_mem _)).2
    have hback : backUp p (p.length - 1) = some front.length := by
      rw [hlength, Nat.add_sub_cancel]
      exact backUp_trail hcs htrail (fun y hy => (ht y hy).1) hlen le_rfl
    obtain ⟨hlead, hcount⟩ := h.lead c x t hx htne
    rw [trimAt, hlast, if_neg Bool.false_ne_true, hback, Option.bind_some, hget, hlead, hcount,
      if_neg (by omega), if_neg (by simp), if_neg (by omega), if_neg (by omega)]

/-- The offset is one of the text. -/
lemma trimAt_le (hi : i < p.length) (h : trimAt icu p i = some o) : o ≤ p.length := by
  have hback : ∀ j k, backUp p j = some k → k ≤ j := by
    intro j k hjk
    induction j with
    | zero =>
      rw [backUp] at hjk
      split_ifs at hjk
      exact (Option.some.inj hjk).ge
    | succ j ih =>
      rw [backUp] at hjk
      split_ifs at hjk
      · exact (ih hjk).trans (Nat.le_succ j)
      · exact (Option.some.inj hjk).ge
  rw [trimAt] at h
  split_ifs at h
  · exact (Option.some.inj h).ge
  · obtain ⟨k, hk, h⟩ := Option.bind_eq_some_iff.1 h
    have hle := hback i k hk
    split_ifs at h
    · have := Option.some.inj h
      omega
    · exact (Option.some.inj h).ge

lemma trimmed_of_ne_nil (hne : p ≠ []) : trimmed icu p = trimAt icu p (p.length - 1) := if_neg hne

/-! ### Short texts -/

/-- The check of a text whose length is one of an `int32_t`, as far as to its last byte. -/
lemma isValidUTF8_eq (hne : p ≠ []) (hlen : p.length ≤ 2 ^ 31) : isValidUTF8 icu p =
    match trimmed icu p with
    | none => some none
    | some 0 => some (some 0)
    | some (o + 1) =>
      (source p (o + 1)).bind fun s =>
        if s = [] then none else some (if icu.accepts s then some (o + 1) else none) := by
  have hpos := List.length_pos_iff.2 hne
  have hlast : toInt32 (p.length - 1) = ((p.length - 1 : ℕ) : ℤ) := toInt32_of_lt (by omega)
  rw [isValidUTF8, if_neg hne, hlast, if_neg (by omega), Int.toNat_natCast,
    trimmed_of_ne_nil hne]

/-- A valid text that is short enough is stored as it is. -/
lemma ICU.Documented.makeUTF8Blob_valid (h : icu.Documented) (memory : ℕ → Bytes) (hp : ValidUTF8 p)
    (hlen : p.length < 2 ^ 31) :
    makeUTF8Blob icu memory p = some p ∧ makeUTF8BlobOfBlob icu memory p = some p := by
  by_cases hne : p = []
  · subst hne
    exact ⟨rfl, rfl⟩
  · have htrim : trimmed icu p = some p.length :=
      (trimmed_of_ne_nil hne).trans (h.trimAt_valid hp hne)
    have hsource : source p p.length = some p := by
      rw [source_of_lt hlen, List.take_length]
    constructor
    · obtain ⟨n, hn⟩ : ∃ n, p.length = n + 1 :=
        Nat.exists_eq_succ_of_ne_zero (by simpa using hne)
      rw [makeUTF8Blob, isValidUTF8_eq hne hlen.le, htrim, hn]
      dsimp only
      rw [← hn, hsource, Option.bind_some, if_neg hne, h.accepts_iff.2 hp, if_pos rfl,
        Option.bind_some]
      dsimp only
      rw [List.take_length]
    · rw [makeUTF8BlobOfBlob, isValidWhole, if_neg hne, hsource, Option.bind_some, if_neg hne,
        h.accepts_iff.2 hp]
      rfl

/-- A text that is valid when it has been trimmed is stored so. -/
lemma ICU.Documented.storesClean_trimmed (h : icu.Documented) (hlen : p.length ≤ 2 ^ 31)
    (htrim : trimmed icu p = some o) (ho : o < 2 ^ 31) (hvalid : ValidUTF8 (p.take o)) :
    StoresClean icu memory p := by
  have hmake : makeUTF8Blob icu memory p = some (p.take o) := by
    by_cases hne : p = []
    · subst hne
      obtain rfl := Option.some.inj htrim
      rfl
    · rw [makeUTF8Blob, isValidUTF8_eq hne hlen, htrim]
      cases o with
      | zero => rfl
      | succ o =>
        have hnil : p.take (o + 1) ≠ [] := by simp [hne]
        dsimp only
        rw [source_of_lt ho, Option.bind_some, if_neg hnil, h.accepts_iff.2 hvalid, if_pos rfl]
        rfl
  obtain ⟨hagain, hblob⟩ := h.makeUTF8Blob_valid memory hvalid
    ((List.length_take_le o p).trans_lt ho)
  refine ⟨p.take o, hmake, hvalid, ?_, fun hp => ?_, hagain, hblob⟩
  · rw [cleansedText, htrim]
    dsimp only
    rw [if_pos (h.accepts_iff.2 hvalid)]
  · by_cases hne : p = []
    · rw [hne, List.take_nil]
    · rw [trimmed_of_ne_nil hne, h.trimAt_valid hp hne] at htrim
      rw [← Option.some.inj htrim, List.take_length]

/-- A text that is not valid when it has been trimmed. -/
def Replaced (icu : ICU) (p : Bytes) : Prop :=
  p ≠ [] ∧ ∀ o, trimmed icu p = some o → o ≠ 0 ∧ ¬ ValidUTF8 (p.take o)

lemma trimmed_of_not_replaced (hp : ¬ Replaced icu p) :
    ∃ o, trimmed icu p = some o ∧ ValidUTF8 (p.take o) ∧ o ≤ p.length := by
  by_cases hne : p = []
  · exact ⟨0, if_pos hne, ValidUTF8.nil, Nat.zero_le _⟩
  · obtain ⟨o, htrim, ho⟩ : ∃ o, trimmed icu p = some o ∧ (o = 0 ∨ ValidUTF8 (p.take o)) := by
      by_contra hcon
      refine hp ⟨hne, fun o htrim => ?_⟩
      exact ⟨fun h0 => hcon ⟨o, htrim, Or.inl h0⟩, fun hv => hcon ⟨o, htrim, Or.inr hv⟩⟩
    refine ⟨o, htrim, ?_, ?_⟩
    · rcases ho with rfl | ho
      · exact ValidUTF8.nil
      · exact ho
    · rw [trimmed_of_ne_nil hne] at htrim
      have hpos := List.length_pos_iff.2 hne
      exact trimAt_le (by omega) htrim

lemma ICU.Documented.cleansedText_eq (h : icu.Documented) (hp : Replaced icu p) :
    cleansedText icu p = icu.cleanse p := by
  rw [cleansedText]
  cases htrim : trimmed icu p with
  | none => rfl
  | some o =>
    dsimp only
    rw [if_neg fun hacc => (hp.2 o htrim).2 (h.accepts_iff.1 hacc)]

lemma makeUTF8Blob_of_invalid (h : isValidUTF8 icu p = some none) :
    makeUTF8Blob icu memory p = cleanseUTF8 icu memory p := by
  rw [makeUTF8Blob, h, Option.bind_some]

/-- The check does not find it valid, if it comes to an end. -/
lemma ICU.Documented.isValidUTF8_replaced (h : icu.Documented) (hp : Replaced icu p)
    (hlen : p.length ≤ 2 ^ 31) : isValidUTF8 icu p = some none ∨
      p.length = 2 ^ 31 ∧ isValidUTF8 icu p = none := by
  rw [isValidUTF8_eq hp.1 hlen]
  cases htrim : trimmed icu p with
  | none => exact Or.inl rfl
  | some o =>
    obtain ⟨hne, hnot⟩ := hp.2 o htrim
    cases o with
    | zero => exact absurd rfl hne
    | succ o =>
      have hle : o + 1 ≤ p.length := by
        rw [trimmed_of_ne_nil hp.1] at htrim
        have hpos := List.length_pos_iff.2 hp.1
        exact trimAt_le (by omega) htrim
      dsimp only
      by_cases ho : o + 1 < 2 ^ 31
      · have hacc : icu.accepts (p.take (o + 1)) = false := by
          rw [← Bool.not_eq_true]
          exact fun hacc => hnot (h.accepts_iff.1 hacc)
        have hnil : p.take (o + 1) ≠ [] := by simp [hp.1]
        refine Or.inl ?_
        rw [source_of_lt ho, Option.bind_some, if_neg hnil, hacc, if_neg Bool.false_ne_true]
      · -- the library is given the least length
        have hint : toInt32 (o + 1) < -1 := by
          rw [toInt32_eq]
          split_ifs <;> omega
        refine Or.inr ⟨by omega, ?_⟩
        rw [source, if_pos hint, Option.bind_none]

/-- What the library makes of a text, and what was reserved for it. -/
lemma ICU.Documented.length_cleanse (h : icu.Documented) (s : Bytes) :
    (icu.cleanse s).length ≤ s.length + 2 * icu.substitutions s ∧
      ((icu.cleanse s).length = s.length + 2 * icu.substitutions s ↔
        ∀ t, .ill t ∈ icu.pieces s → t.length = 1) := by
  have hlength := length_cleansed (icu.pieces s) (h.ill s)
  rwa [h.bytes s] at hlength

/-- A text is replaced without a rest, just when all its ill-formed sequences have one byte. -/
lemma ICU.Documented.storesClean_replaced (h : icu.Documented) (hp : Replaced icu p)
    (hshort : p.length + 2 * icu.substitutions p < 2 ^ 31)
    (hill : ∀ s, .ill s ∈ icu.pieces p → s.length = 1) (hmemory : ∀ n, (memory n).length = n) :
    StoresClean icu memory p := by
  have hlen : p.length < 2 ^ 31 := by omega
  have hsize := (h.length_cleanse p).2.2 hill
  have hvalid : ValidUTF8 (icu.cleanse p) := validUTF8_cleanse p
  have hint := toInt32_of_lt hshort
  have hclean : cleanseUTF8 icu memory p = some (icu.cleanse p) := by
    rw [cleanseUTF8, source_of_lt hlen, List.take_length, Option.bind_some, if_neg (by omega),
      hint, hsize, if_neg (by omega), if_neg (by omega), Nat.sub_self,
      List.length_eq_zero_iff.1 (hmemory 0), List.append_nil]
  obtain ⟨hagain, hblob⟩ := h.makeUTF8Blob_valid memory hvalid (by omega)
  refine ⟨icu.cleanse p, ?_, hvalid, ?_, fun hp' => ?_, hagain, hblob⟩
  · have hinvalid := (h.isValidUTF8_replaced hp hlen.le).resolve_right fun heq => by omega
    rw [makeUTF8Blob_of_invalid hinvalid, hclean]
  · rw [h.cleansedText_eq hp]
  · have htrim := (trimmed_of_ne_nil hp.1).trans (h.trimAt_valid hp' hp.1)
    exact absurd (by rwa [List.take_length]) (hp.2 _ htrim).2

/-! ### Long texts -/

/-- A valid text is valid as far as to any character of ASCII. -/
lemma validUTF8_take (hp : ValidUTF8 p) (hi : i < p.length)
    (hsingle : isSingle (p.getD i 0) = true) : ValidUTF8 (p.take (i + 1)) := by
  obtain ⟨cs, rfl⟩ := hp
  induction cs generalizing i with
  | nil => exact absurd hi (Nat.not_lt_zero i)
  | cons c cs ih =>
    obtain ⟨l, hl⟩ : ∃ l, l = cs.flatMap String.utf8EncodeChar := ⟨_, rfl⟩
    rw [List.flatMap_cons, ← hl] at hi hsingle ⊢
    rw [← hl] at ih
    have hchar : ValidUTF8 (String.utf8EncodeChar c) := ⟨[c], by simp⟩
    by_cases hlt : i < (String.utf8EncodeChar c).length
    · rw [List.getD_append _ _ _ _ hlt] at hsingle
      rcases encode_cases c with ⟨x, hx, -⟩ | ⟨x, t, hx, -, -, hnot, -, ht⟩
      · rw [hx] at hlt hchar ⊢
        obtain rfl : i = 0 := by simpa using hlt
        rw [List.take_append_of_le_length (by simp), List.take_of_length_le (by simp)]
        exact hchar
      · rw [hx] at hlt hsingle
        cases i with
        | zero => exact absurd (hsingle.symm.trans hnot) (by simp)
        | succ k =>
          have hk : k < t.length := by simpa using hlt
          rw [List.getD_cons_succ, List.getD_eq_getElem _ _ hk] at hsingle
          exact absurd (hsingle.symm.trans (ht _ (List.getElem_mem hk)).2) (by simp)
    · rw [not_lt] at hlt
      rw [List.length_append] at hi
      rw [List.getD_append_right _ _ _ _ hlt] at hsingle
      rw [List.take_append, List.take_of_length_le (by omega),
        show i + 1 - (String.utf8EncodeChar c).length =
          i - (String.utf8EncodeChar c).length + 1 by omega]
      exact hchar.append (ih (by omega) hsingle)

/-- What is left of the length of a long text, where the position of its last byte is one of an
`int`. -/
lemma long_length (hlen : 2 ^ 31 < p.length) (hint : 0 ≤ toInt32 (p.length - 1)) :
    toInt32 (p.length - 1) = ((p.length - 1) % 2 ^ 32 : ℕ) ∧
      (p.length - 1) % 2 ^ 32 < 2 ^ 31 ∧ (p.length - 1) % 2 ^ 32 + 2 ^ 32 < p.length := by
  rw [toInt32_eq] at hint ⊢
  split_ifs at hint ⊢ with h
  · exact ⟨rfl, by omega, by omega⟩
  · exact absurd hint (by omega)

/-- The library is given what is left of the length, if that is one of an `int32_t`. -/
lemma source_long (hlen : 2 ^ 31 < p.length) (hint : 0 ≤ toInt32 (p.length - 1)) :
    source p p.length = if (p.length - 1) % 2 ^ 32 < 2 ^ 31 - 1 then
      some (p.take ((p.length - 1) % 2 ^ 32 + 1)) else none := by
  obtain ⟨-, hlow, hlong⟩ := long_length hlen hint
  split_ifs with h
  · have heq : toInt32 p.length = (((p.length - 1) % 2 ^ 32 + 1 : ℕ) : ℤ) := by
      rw [toInt32_eq]
      split_ifs <;> omega
    have hge : ¬ toInt32 p.length < -1 := by omega
    have hne : ¬ toInt32 p.length = -1 := by omega
    rw [source, if_neg hge, if_neg hne, heq, Int.toNat_natCast]
  · have hlt : toInt32 p.length < -1 := by
      rw [toInt32_eq]
      split_ifs <;> omega
    rw [source, if_pos hlt]

/-- The check of a text that is longer, from what is left of the position of its last byte. -/
lemma isValidUTF8_long (icu : ICU) (hlen : 2 ^ 31 < p.length) (hint : 0 ≤ toInt32 (p.length - 1)) :
    isValidUTF8 icu p = match trimAt icu p ((p.length - 1) % 2 ^ 32) with
      | none => some none
      | some 0 => some (some 0)
      | some (offset + 1) =>
        (source p (offset + 1)).bind fun s =>
          if s = [] then none else some (if icu.accepts s then some (offset + 1) else none) := by
  have hne : p ≠ [] := List.ne_nil_of_length_pos (by omega)
  rw [isValidUTF8, if_neg hne, (long_length hlen hint).1, if_neg (by omega), Int.toNat_natCast]

/-- A valid text is stored as it is also where what is left of its length ends with a character of
ASCII. -/
lemma ICU.Documented.storesClean_long (h : icu.Documented) (hlen : 2 ^ 31 < p.length)
    (hmod : (p.length - 1) % 2 ^ 32 < 2 ^ 31 - 1)
    (hsingle : isSingle (p.getD ((p.length - 1) % 2 ^ 32) 0) = true) (hp : ValidUTF8 p) :
    StoresClean icu memory p := by
  have hne : p ≠ [] := List.ne_nil_of_length_pos (by omega)
  have hint : 0 ≤ toInt32 (p.length - 1) := by
    rw [toInt32_eq]
    split_ifs <;> omega
  obtain ⟨-, hlow, hlong⟩ := long_length hlen hint
  have hfront : icu.accepts (p.take ((p.length - 1) % 2 ^ 32 + 1)) = true :=
    h.accepts_iff.2 (validUTF8_take hp (by omega) hsingle)
  have hnil : p.take ((p.length - 1) % 2 ^ 32 + 1) ≠ [] := by simp [hne]
  have hsource := source_long hlen hint
  rw [if_pos hmod] at hsource
  obtain ⟨n, hn⟩ : ∃ n, p.length = n + 1 := Nat.exists_eq_succ_of_ne_zero (by omega)
  have htrim : trimAt icu p ((p.length - 1) % 2 ^ 32) = some (n + 1) := by
    rw [trimAt, hsingle, if_pos rfl, hn]
  have hmake : makeUTF8Blob icu memory p = some p := by
    rw [makeUTF8Blob, isValidUTF8_long icu hlen hint, htrim]
    dsimp only
    rw [← hn, hsource, Option.bind_some, if_neg hnil, hfront, if_pos rfl, Option.bind_some]
    dsimp only
    rw [List.take_length]
  refine ⟨p, hmake, hp, ?_, fun _ => rfl, hmake, ?_⟩
  · rw [cleansedText, trimmed_of_ne_nil hne, h.trimAt_valid hp hne]
    dsimp only
    rw [List.take_length, if_pos (h.accepts_iff.2 hp)]
  · rw [makeUTF8BlobOfBlob, isValidWhole, if_neg hne, hsource, Option.bind_some, if_neg hnil,
      hfront, Option.bind_some, if_pos rfl]

/-! ### A library -/

/-- A library whose ill-formed sequences are those of a byte and all trail bytes behind it. -/
def replacingTrails : ICU where
  pieces := cut
  isLead b := 194 ≤ b ∧ b ≤ 244
  countTrailBytes b := if b < 224 then 1 else if b < 240 then 2 else 3
where
  cut : Bytes → List Piece
    | [] => []
    | b :: t =>
      match (b :: t).toByteArray.utf8DecodeChar? 0 with
      | some c => .char c :: cut (t.drop (c.utf8Size - 1))
      | none => .ill (b :: t.takeWhile isTrail) :: cut (t.dropWhile isTrail)
  termination_by s => s.length
  decreasing_by
    · simp only [List.length_drop, List.length_cons]
      omega
    · exact Nat.lt_succ_of_le (List.dropWhile_suffix _).length_le

/-- A text that starts with a character. -/
lemma append_drop_of_decode {c : Char} (h : s.toByteArray.utf8DecodeChar? 0 = some c) :
    String.utf8EncodeChar c ++ s.drop c.utf8Size = s := by
  obtain ⟨l, hl⟩ := ByteArray.exists_of_utf8DecodeChar?_eq_some h
  have hs : s = String.utf8EncodeChar c ++ l.data.toList := by
    have hdata := congrArg (fun a => a.data.toList) hl
    simpa using hdata
  rw [hs, List.drop_left' (String.length_utf8EncodeChar c)]

lemma cut_append (c : Char) (s : Bytes) : replacingTrails.cut (String.utf8EncodeChar c ++ s) =
    .char c :: replacingTrails.cut s := by
  have hdecode := ByteArray.utf8DecodeChar?_utf8EncodeChar_append (b := s.toByteArray) (c := c)
  rw [← List.toByteArray_append] at hdecode
  have hdrop : (String.utf8EncodeChar c ++ s).drop c.utf8Size = s :=
    List.drop_left' (String.length_utf8EncodeChar c)
  have hpos := c.utf8Size_pos
  cases htext : String.utf8EncodeChar c ++ s with
  | nil =>
    have hlength := congrArg List.length htext
    rw [List.length_append, String.length_utf8EncodeChar, List.length_nil] at hlength
    omega
  | cons b t =>
    rw [htext] at hdecode hdrop
    rw [replacingTrails.cut, hdecode]
    dsimp only
    obtain ⟨k, hk⟩ : ∃ k, c.utf8Size = k + 1 := Nat.exists_eq_succ_of_ne_zero (by omega)
    rw [hk, List.drop_succ_cons] at hdrop
    rw [hk, Nat.add_sub_cancel, hdrop]

/-- The parts make up the text. -/
lemma flatMap_cut (s : Bytes) : (replacingTrails.cut s).flatMap Piece.bytes = s := by
  induction s using replacingTrails.cut.induct with
  | case1 => rw [replacingTrails.cut, List.flatMap_nil]
  | case2 b t c hc ih =>
    have happend := append_drop_of_decode hc
    obtain ⟨k, hk⟩ : ∃ k, c.utf8Size = k + 1 := Nat.exists_eq_succ_of_ne_zero c.utf8Size_pos.ne'
    rw [hk, List.drop_succ_cons] at happend
    rw [hk, Nat.add_sub_cancel] at ih
    rw [replacingTrails.cut, hc]
    dsimp only
    rw [List.flatMap_cons, hk, Nat.add_sub_cancel, ih]
    exact happend
  | case3 b t hnone ih =>
    rw [replacingTrails.cut, hnone]
    dsimp only
    rw [List.flatMap_cons, ih]
    exact congrArg (b :: ·) List.takeWhile_append_dropWhile

lemma ne_nil_of_mem_cut (s : Bytes) : ∀ t, .ill t ∈ replacingTrails.cut s → t ≠ [] := by
  induction s using replacingTrails.cut.induct with
  | case1 => simp [replacingTrails.cut]
  | case2 b t c hc ih =>
    rw [replacingTrails.cut, hc]
    simpa using ih
  | case3 b t hnone ih =>
    rw [replacingTrails.cut, hnone]
    simpa using ih

/-- A valid text has characters only. -/
lemma isIll_of_mem_cut (hs : ValidUTF8 s) : ∀ q ∈ replacingTrails.cut s, q.isIll = false := by
  obtain ⟨cs, rfl⟩ := hs
  induction cs with
  | nil => simp [replacingTrails.cut]
  | cons c cs ih =>
    rw [List.flatMap_cons, cut_append]
    exact List.forall_mem_cons.2 ⟨rfl, ih⟩

/-- The macros are right on the first byte of a character with trail bytes. -/
lemma isLead_of_encode {c : Char} {b : Byte} (hc : String.utf8EncodeChar c = b :: t)
    (hne : t ≠ []) :
    replacingTrails.isLead b = true ∧ replacingTrails.countTrailBytes b = t.length := by
  have hvalid := c.valid
  rw [UInt32.isValidChar, Nat.isValidChar] at hvalid
  rw [String.utf8EncodeChar.eq_def] at hc
  dsimp only at hc
  generalize c.val.toNat = n at hvalid hc
  have htwo : ∀ m < 30, replacingTrails.isLead (UInt8.ofNat (m + 194)) = true ∧
      replacingTrails.countTrailBytes (UInt8.ofNat (m + 194)) = 1 := by
    decide +kernel
  have hthree : ∀ m < 16, replacingTrails.isLead (UInt8.ofNat (m + 224)) = true ∧
      replacingTrails.countTrailBytes (UInt8.ofNat (m + 224)) = 2 := by
    decide +kernel
  have hfour : ∀ m < 5, replacingTrails.isLead (UInt8.ofNat (m + 240)) = true ∧
      replacingTrails.countTrailBytes (UInt8.ofNat (m + 240)) = 3 := by
    decide +kernel
  split_ifs at hc with h1 h2 h3
  · exact absurd (List.cons.inj hc).2.symm hne
  · -- the least character of two bytes begins with 194
    obtain ⟨rfl, rfl⟩ := List.cons.inj hc
    have hfirst := htwo (n / 64 % 32 - 2) (by omega)
    rwa [show n / 64 % 32 - 2 + 194 = n / 64 % 32 + 192 by omega] at hfirst
  · obtain ⟨rfl, rfl⟩ := List.cons.inj hc
    exact hthree (n / 4096 % 16) (by omega)
  · -- the last character begins with 244
    obtain ⟨rfl, rfl⟩ := List.cons.inj hc
    exact hfour (n / 262144 % 8) (by omega)

lemma replacingTrails_documented : replacingTrails.Documented where
  bytes := flatMap_cut
  ill := ne_nil_of_mem_cut
  valid _ hs := isIll_of_mem_cut hs
  lead _ _ _ hc hne := isLead_of_encode hc hne

/-! ### Where a blob is clean -/

/-- What is made of a text that is not valid has the size that was reserved. -/
lemma length_cleanseUTF8 (hmemory : ∀ n, (memory n).length = n)
    (h : cleanseUTF8 icu memory p = some b) : ∃ s, source p p.length = some s ∧
      2 * icu.substitutions s < 2 ^ 31 ∧
      ((icu.cleanse s).length : ℤ) ≤ toInt32 (p.length + 2 * icu.substitutions s) ∧
      ((icu.cleanse s).length ≤ p.length + 2 * icu.substitutions s →
        b.length = p.length + 2 * icu.substitutions s) := by
  obtain ⟨s, hs, h⟩ := Option.bind_eq_some_iff.1 h
  split_ifs at h with hprod hroom hterm
  · rw [not_le] at hprod
    rw [not_lt] at hroom
    refine ⟨s, hs, hprod, hroom, fun hle => ?_⟩
    rw [← Option.some.inj h, List.length_append, List.length_cons, hmemory]
    have hle' : toInt32 (p.length + 2 * icu.substitutions s) ≤
        ((p.length + 2 * icu.substitutions s : ℕ) : ℤ) := by
      rw [toInt32_eq]
      split_ifs <;> omega
    omega
  · rw [not_le] at hprod
    rw [not_lt] at hroom
    refine ⟨s, hs, hprod, hroom, fun hle => ?_⟩
    rw [← Option.some.inj h, List.length_append, hmemory]
    omega

/-- A short text that is not valid is clean only without a rest. -/
lemma ICU.Documented.cleansable_replaced (h : icu.Documented) (hp : Replaced icu p)
    (hlen : p.length ≤ 2 ^ 31) (hmemory : ∀ n, (memory n).length = n)
    (hclean : StoresClean icu memory p) :
    p.length + 2 * icu.substitutions p < 2 ^ 31 ∧ ∀ s, .ill s ∈ icu.pieces p → s.length = 1 := by
  obtain ⟨b, hb, -, hsize, -⟩ := hclean
  have hinvalid : isValidUTF8 icu p = some none := by
    rcases h.isValidUTF8_replaced hp hlen with hnone | ⟨-, hundef⟩
    · exact hnone
    · rw [makeUTF8Blob, hundef] at hb
      cases hb
  rw [makeUTF8Blob_of_invalid hinvalid] at hb
  obtain ⟨s, hs, hprod, hroom, hlength⟩ := length_cleanseUTF8 hmemory hb
  have hlt : p.length < 2 ^ 31 := by
    refine lt_of_le_of_ne hlen fun heq => ?_
    have hlow : toInt32 p.length < -1 := by
      rw [toInt32_eq]
      split_ifs <;> omega
    rw [source, if_pos hlow] at hs
    cases hs
  rw [source_of_lt hlt, List.take_length] at hs
  obtain rfl := Option.some.inj hs
  obtain ⟨hle, hiff⟩ := h.length_cleanse p
  rw [h.cleansedText_eq hp, hlength hle] at hsize
  refine ⟨?_, hiff.1 hsize.symm⟩
  rw [← hsize, toInt32_eq] at hroom
  split_ifs at hroom <;> omega

/-- A long text that is not valid is followed by whatever the memory held. -/
lemma ICU.Documented.not_validUTF8_long (h : icu.Documented) (hlen : 2 ^ 31 < p.length)
    (hint : 0 ≤ toInt32 (p.length - 1))
    (hb : cleanseUTF8 icu (List.replicate · 255) p = some b) : ¬ ValidUTF8 b := by
  obtain ⟨-, -, hlong⟩ := long_length hlen hint
  obtain ⟨s, hs, hb⟩ := Option.bind_eq_some_iff.1 hb
  have hlength : s.length ≤ (p.length - 1) % 2 ^ 32 + 1 := by
    rw [source_long hlen hint] at hs
    split_ifs at hs
    rw [← Option.some.inj hs]
    exact List.length_take_le _ _
  -- as much was reserved as for the whole text, of which at most 2^31 bytes were read
  have hle := (h.length_cleanse s).1
  intro hvalid
  suffices hmem : (255 : Byte) ∈ b from hvalid.ne_of_mem hmem rfl
  split_ifs at hb with hprod hroom hterm
  · rw [← Option.some.inj hb]
    refine List.mem_append_right _ (List.mem_cons_of_mem _ ?_)
    exact List.mem_replicate.2 ⟨by omega, rfl⟩
  · rw [← Option.some.inj hb]
    exact List.mem_append_right _ (List.mem_replicate.2 ⟨by omega, rfl⟩)

/-- A long text is clean only if it is valid, and what is left of its length ends with a character
of ASCII. -/
lemma ICU.Documented.cleansable_long (h : icu.Documented) (hlen : 2 ^ 31 < p.length)
    (hclean : StoresClean icu (List.replicate · 255) p) :
    (p.length - 1) % 2 ^ 32 < 2 ^ 31 - 1 ∧
      isSingle (p.getD ((p.length - 1) % 2 ^ 32) 0) = true ∧ ValidUTF8 p := by
  obtain ⟨b, hb, hvalid, -⟩ := hclean
  have hne : p ≠ [] := List.ne_nil_of_length_pos (by omega)
  have hint : 0 ≤ toInt32 (p.length - 1) := by
    by_contra hneg
    rw [makeUTF8Blob, isValidUTF8, if_neg hne, if_pos (not_le.1 hneg)] at hb
    cases hb
  have hnot : ¬ isValidUTF8 icu p = some none := by
    intro hinvalid
    rw [makeUTF8Blob_of_invalid hinvalid] at hb
    exact h.not_validUTF8_long hlen hint hb hvalid
  obtain ⟨-, hlow, hlong⟩ := long_length hlen hint
  have hcheck := isValidUTF8_long icu hlen hint
  by_cases hsingle : isSingle (p.getD ((p.length - 1) % 2 ^ 32) 0) = true
  · obtain ⟨n, hn⟩ : ∃ n, p.length = n + 1 := Nat.exists_eq_succ_of_ne_zero (by omega)
    have htrim : trimAt icu p ((p.length - 1) % 2 ^ 32) = some (n + 1) := by
      rw [trimAt, hsingle, if_pos rfl, hn]
    rw [htrim] at hcheck
    dsimp only at hcheck
    rw [← hn, source_long hlen hint] at hcheck
    split_ifs at hcheck with hmod
    · refine ⟨hmod, hsingle, ?_⟩
      have hnil : p.take ((p.length - 1) % 2 ^ 32 + 1) ≠ [] := by simp [hne]
      rw [Option.bind_some, if_neg hnil] at hcheck
      cases hacc : icu.accepts (p.take ((p.length - 1) % 2 ^ 32 + 1)) with
      | false =>
        rw [hacc, if_neg Bool.false_ne_true] at hcheck
        exact absurd hcheck hnot
      | true =>
        rw [hacc, if_pos rfl] at hcheck
        rw [makeUTF8Blob, hcheck, Option.bind_some] at hb
        dsimp only at hb
        rw [List.take_length] at hb
        rwa [Option.some.inj hb]
    · rw [makeUTF8Blob, hcheck] at hb
      cases hb
  · -- the loop does not start, as the rest of the text has more than four bytes
    have hback : backUp p ((p.length - 1) % 2 ^ 32) = some ((p.length - 1) % 2 ^ 32) := by
      cases hm : (p.length - 1) % 2 ^ 32 with
      | zero => rw [backUp, if_neg (by omega)]
      | succ m => rw [backUp, if_neg (by omega)]
    have htrim : trimAt icu p ((p.length - 1) % 2 ^ 32) = none := by
      rw [trimAt, if_neg hsingle, hback, Option.bind_some, if_pos (by omega)]
    rw [htrim] at hcheck
    exact absurd hcheck hnot

/-- A text is stored clean, whatever the memory held, just when it is one of those. -/
theorem storesClean_iff (h : icu.Documented) (p : Bytes) :
    (∀ memory : ℕ → Bytes, (∀ n, (memory n).length = n) → StoresClean icu memory p) ↔
      Cleansable icu p := by
  constructor
  · intro hclean
    have hclean := hclean (List.replicate · 255) fun n => List.length_replicate
    rcases le_or_gt p.length (2 ^ 31) with hlen | hlen
    · by_cases hp : Replaced icu p
      · exact Or.inr (Or.inl (h.cleansable_replaced hp hlen
          (fun n => List.length_replicate) hclean))
      · obtain ⟨o, htrim, hvalid, hle⟩ := trimmed_of_not_replaced hp
        refine Or.inl ⟨hlen, ?_⟩
        refine ⟨o, htrim, ?_, hvalid⟩
        -- the library would be given a negative length
        by_contra hlong
        have hne : p ≠ [] := List.ne_nil_of_length_pos (by omega)
        have hlow : toInt32 o < -1 := by
          rw [toInt32_eq]
          split_ifs <;> omega
        obtain ⟨b, hb, -⟩ := hclean
        obtain ⟨n, rfl⟩ : ∃ n, o = n + 1 := Nat.exists_eq_succ_of_ne_zero (by omega)
        rw [makeUTF8Blob, isValidUTF8_eq hne hlen, htrim] at hb
        dsimp only at hb
        rw [source, if_pos hlow] at hb
        cases hb
    · exact Or.inr (Or.inr ⟨hlen, h.cleansable_long hlen hclean⟩)
  · intro hcase memory hmemory
    rcases hcase with ⟨hlen, o, htrim, ho, hvalid⟩ | ⟨hshort, hill⟩ | ⟨hlen, hmod, hsingle, hp⟩
    · exact h.storesClean_trimmed hlen htrim ho hvalid
    · by_cases hp : Replaced icu p
      · exact h.storesClean_replaced hp hshort hill hmemory
      · obtain ⟨o, htrim, hvalid, hle⟩ := trimmed_of_not_replaced hp
        exact h.storesClean_trimmed (by omega) htrim (by omega) hvalid
    · exact h.storesClean_long hlen hmod hsingle hp

/-- A text that ends with the first two bytes of a character is stored without them. -/
theorem storesClean_euro : Cleansable replacingTrails [97, 226, 130] ∧
    ∀ memory : ℕ → Bytes, (∀ n, (memory n).length = n) →
      StoresClean replacingTrails memory [97, 226, 130] := by
  have hcase : Cleansable replacingTrails [97, 226, 130] := by
    refine Or.inl ⟨by simp, 1, by decide +kernel, by omega, ?_⟩
    exact ValidUTF8.of_ascii (by simp)
  exact ⟨hcase, (storesClean_iff replacingTrails_documented [97, 226, 130]).2 hcase⟩

/-- In the middle of a text they are replaced, and the blob has a byte more than the text. -/
theorem not_storesClean : ¬ ∀ (icu : ICU) (memory : ℕ → Bytes) (p : Bytes), icu.Documented →
    (∀ n, (memory n).length = n) → StoresClean icu memory p := by
  intro hall
  have hpieces : replacingTrails.pieces [97, 226, 130, 98] =
      [.char 'a', .ill [226, 130], .char 'b'] := by
    have hnone : ([226, 130, 98] : Bytes).toByteArray.utf8DecodeChar? 0 = none := by
      decide +kernel
    have hill : replacingTrails.cut [226, 130, 98] = [.ill [226, 130], .char 'b'] := by
      rw [replacingTrails.cut, hnone]
      dsimp only
      rw [show ([130, 98] : Bytes).takeWhile isTrail = [130] by decide,
        show ([130, 98] : Bytes).dropWhile isTrail = String.utf8EncodeChar 'b' ++ [] by decide,
        cut_append, replacingTrails.cut]
    have hfirst := cut_append 'a' [226, 130, 98]
    rw [hill] at hfirst
    exact hfirst
  have hreplaced : Replaced replacingTrails [97, 226, 130, 98] := by
    refine ⟨by simp, fun o ho => ?_⟩
    have htrim : trimmed replacingTrails [97, 226, 130, 98] = some 4 := by decide +kernel
    obtain rfl := Option.some.inj (htrim.symm.trans ho)
    refine ⟨by simp, fun hvalid => ?_⟩
    have hacc := replacingTrails_documented.accepts_iff.2 hvalid
    rw [List.take_of_length_le (by simp), ICU.accepts, hpieces] at hacc
    simp [Piece.isIll] at hacc
  have hclean := hall replacingTrails (List.replicate · 255) [97, 226, 130, 98]
    replacingTrails_documented (fun n => List.length_replicate)
  have hlengths := (replacingTrails_documented.cleansable_replaced hreplaced (by simp)
    (fun n => List.length_replicate) hclean).2
  rw [hpieces] at hlengths
  simpa using hlengths [226, 130] (by simp)

end PionCore.Platform.EventValidator
