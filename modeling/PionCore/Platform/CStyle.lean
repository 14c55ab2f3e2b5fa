/-
# Escape sequences of the configuration

`cstyle` replaces the escape sequences of C in a string of the configuration, in the buffer that has
the string.  It takes the number of conversions that `sscanf` has made for the number of characters
that it has read, so that of a number only one digit is removed, and with `\x` it makes none.  A
quotation mark loses its own character, and not the backslash (`cstyle_iff`).
-/
import PionCore.Platform.LogCodec

namespace PionCore.Platform.CStyle

open PionCore.Lib
open LogCodec (cString firstChar)

def isOctal (c : Byte) : Bool := 48 ≤ c ∧ c ≤ 55

/-- What `sscanf` and the variable for its result leave open: what the variable is before anything
was stored in it, and what is stored of a number that does not fit. -/
structure Scanner where
  unset : ℕ
  overflow : ℕ → ℕ

/-- What `sscanf` stores of a number. -/
def Scanner.store (sc : Scanner) (n : ℕ) : ℕ := if n < 2 ^ 32 then n else sc.overflow n

/-- The number at the beginning of a text that begins with no blank, sign or prefix, with all the
digits that follow each other. -/
def sscanf (base : ℕ) (isDigit : Byte → Bool) (s : Bytes) : Option ℕ :=
  if s.takeWhile isDigit = [] then none else some (readNumeral base (s.takeWhile isDigit))

/-- What a turn of the loop does: the character that it puts in the place of the backslash, the
number of characters that it removes behind it, and the variable for `sscanf`. -/
structure Turn where
  char : Byte
  nlen : ℕ
  value : ℕ

/-- The single letters and what they stand for. -/
def letters : List (Byte × Byte) :=
  [(97, 7), (98, 8), (102, 12), (110, 10), (114, 13), (116, 9), (118, 11), (95, 32)]

/-- `nlen = sscanf(ptr + 1, ...); *ptr = (char)value`. -/
def scanned (sc : Scanner) (value : ℕ) : Option ℕ → Turn
  | some n => ⟨UInt8.ofNat (sc.store n), 1, sc.store n⟩
  | none => ⟨UInt8.ofNat value, 0, value⟩

/-- The `switch`, with the text behind the backslash. -/
def turn (sc : Scanner) (value : ℕ) (next : Bytes) : Turn :=
  match letters.lookup (firstChar next) with
  | some c => ⟨c, 1, value⟩
  | none =>
    if isOctal (firstChar next) then scanned sc value (sscanf 8 isOctal next)
    else if firstChar next = 120 then scanned sc value (sscanf 16 isHexDigit next)
    else ⟨92, 1, value⟩

/-- The position of a character of a C string, from a position on. -/
def strchr (buf : Bytes) (ptr : ℕ) (c : Byte) : Option ℕ :=
  if c ∈ cString (buf.drop ptr) then some (ptr + (cString (buf.drop ptr)).idxOf c) else none

def memmove (buf : Bytes) (dest src n : ℕ) : Bytes :=
  buf.take dest ++ (buf.drop src).take n ++ buf.drop (dest + n)

/-- The loop: the buffer, and where the search has ended. -/
def cstyleLoop (sc : Scanner) (len : ℕ) : ℕ → Bytes → ℕ → ℕ → Bytes × ℕ
  | 0, buf, ptr, _ => (buf, ptr)
  | fuel + 1, buf, ptr, value =>
    match strchr buf ptr 92 with
    | none => (buf, ptr)
    | some p =>
      cstyleLoop sc len fuel
        (memmove (buf.set p (turn sc value (cString (buf.drop (p + 1)))).char) (p + 1)
          (p + 1 + (turn sc value (cString (buf.drop (p + 1)))).nlen)
          (len - (p + (turn sc value (cString (buf.drop (p + 1)))).nlen)))
        (p + 1) (turn sc value (cString (buf.drop (p + 1)))).value

/-- `cstyle`: the buffer up to the end at which the search stops.  A zero character that stands for
an escape sequence is not that end. -/
def cstyle (sc : Scanner) (s : Bytes) : Bytes :=
  let r := cstyleLoop sc s.length (s.length + 1) (s ++ [0]) 0 sc.unset
  r.1.take r.2 ++ cString (r.1.drop r.2)

/-! ### The sequences of C -/

/-- A plain character, a character behind a backslash, or a number. -/
inductive Token where
  | plain (b : Byte)
  | simple (b : Byte)
  | octal (ds : Bytes)
  | hex (ds : Bytes)
deriving DecidableEq

/-- The characters of C that stand behind a backslash for one character. -/
def simpleEscapes : List (Byte × Byte) :=
  [(97, 7), (98, 8), (102, 12), (110, 10), (114, 13), (116, 9), (118, 11), (92, 92), (39, 39),
    (34, 34), (63, 63)]

namespace Token

def text : Token → Bytes
  | plain b => [b]
  | simple b => [92, b]
  | octal ds => 92 :: ds
  | hex ds => 92 :: 120 :: ds

/-- The character that C gives a sequence. -/
def char : Token → Byte
  | plain b => b
  | simple b => (simpleEscapes.lookup b).getD 0
  | octal ds => UInt8.ofNat (readNumeral 8 ds)
  | hex ds => UInt8.ofNat (readNumeral 16 ds)

/-- The sequence is one of C, and the text behind it does not go on with it. -/
def Valid (t : Token) (after : Bytes) : Prop :=
  match t with
  | plain b => b ≠ 92 ∧ b ≠ 0
  | simple b => b ∈ simpleEscapes.map Prod.fst
  | octal ds => (∀ d ∈ ds, isOctal d = true) ∧ (ds.length = 3 ∨
      (ds.length = 1 ∨ ds.length = 2) ∧ ∀ d ∈ after.head?, isOctal d = false)
  | hex ds => ds ≠ [] ∧ (∀ d ∈ ds, isHexDigit d = true) ∧ ∀ d ∈ after.head?, isHexDigit d = false

/-- The sequences for which `cstyle` gives the character of C: the letters, the backslash, and the
octal numbers of one digit. -/
def Translated : Token → Prop
  | plain _ => True
  | simple b => b ∉ [39, 34, 63]
  | octal ds => ds.length = 1
  | hex _ => False

end Token

def text (ts : List Token) : Bytes := ts.flatMap Token.text

/-- The characters and sequences that C finds in the text. -/
def WellFormed : List Token → Prop
  | [] => True
  | t :: ts => t.Valid (text ts) ∧ WellFormed ts

/-! ### The loop -/

variable {sc : Scanner} {value : ℕ} {s tail : Bytes}

/-- What the loop makes of a text. -/
def translate (sc : Scanner) : ℕ → Bytes → Bytes
  | _, [] => []
  | _, [b] => [b]
  | value, b :: c :: s =>
    if b = 92 then
      (turn sc value (c :: s)).char ::
        if (turn sc value (c :: s)).nlen = 0 then
          translate sc (turn sc value (c :: s)).value (c :: s)
        else translate sc (turn sc value (c :: s)).value s
    else b :: translate sc value (c :: s)

lemma translate_cons {b : Byte} (hb : b ≠ 92) :
    translate sc value (b :: s) = b :: translate sc value s := by
  cases s with
  | nil => rfl
  | cons c s => rw [translate, if_neg hb]

/-- Text without a backslash stays as it is. -/
lemma translate_append (sc : Scanner) (value : ℕ) (s : Bytes) {p : Bytes} (hp : (92 : Byte) ∉ p) :
    translate sc value (p ++ s) = p ++ translate sc value s := by
  induction p with
  | nil => rfl
  | cons b p ih =>
    rw [List.mem_cons, not_or] at hp
    rw [List.cons_append, translate_cons (Ne.symm hp.1), ih hp.2, List.cons_append]

lemma cString_append_zeros (hs : (0 : Byte) ∉ s) (k : ℕ) :
    cString (s ++ List.replicate (k + 1) 0) = s := by
  have hall : ∀ b ∈ s, (b != 0) = true := by
    intro b hb
    rw [bne_iff_ne]
    rintro rfl
    exact hs hb
  rw [cString, List.takeWhile_append_of_pos hall]
  exact List.append_nil s

lemma turn_nlen (sc : Scanner) (value : ℕ) (next : Bytes) :
    (turn sc value next).nlen = 0 ∨ (turn sc value next).nlen = 1 := by
  rw [turn]
  split
  · exact Or.inr rfl
  · split_ifs
    · cases sscanf 8 isOctal next
      · exact Or.inl rfl
      · exact Or.inr rfl
    · cases sscanf 16 isHexDigit next
      · exact Or.inl rfl
      · exact Or.inr rfl
    · exact Or.inr rfl

lemma memmove_self (buf : Bytes) (dest n : ℕ) : memmove buf dest dest n = buf := by
  rw [memmove, List.append_assoc, ← List.drop_drop, List.take_append_drop, List.take_append_drop]

/-- One character is removed, and the text behind it and the zeros behind that move. -/
lemma memmove_one (a : Bytes) (c : Byte) (k : ℕ) :
    memmove (a ++ (c :: tail ++ List.replicate (k + 1) 0)) a.length (a.length + 1)
        (tail.length + (k + 1)) = a ++ (tail ++ List.replicate (k + 2) 0) := by
  have hdrop : (a ++ (c :: tail ++ List.replicate (k + 1) 0)).drop (a.length + 1) =
      tail ++ List.replicate (k + 1) 0 := by
    rw [← List.drop_drop, List.drop_left]
    rfl
  have hend : (a ++ (c :: tail ++ List.replicate (k + 1) 0)).drop
      (a.length + (tail.length + (k + 1))) = [0] := by
    rw [← List.drop_drop, List.drop_left, ← List.drop_drop, List.cons_append, ← List.cons_append,
      show c :: tail ++ List.replicate (k + 1) 0 =
        (c :: tail ++ List.replicate k 0) ++ [0] by
          rw [List.replicate_succ', List.append_assoc],
      List.drop_drop, List.drop_left']
    simp only [List.length_append, List.length_cons, List.length_replicate]
    omega
  rw [memmove, List.take_left, hdrop, hend, List.take_of_length_le (by simp), List.append_assoc,
    List.append_assoc, ← List.replicate_succ']

/-- A backslash at the end is not changed. -/
lemma memmove_end (a : Bytes) (k : ℕ) :
    memmove (a ++ List.replicate (k + 1) 0) a.length (a.length + 1) k =
      a ++ List.replicate (k + 1) 0 := by
  have hdrop : (a ++ List.replicate (k + 1) (0 : Byte)).drop (a.length + 1) =
      List.replicate k 0 := by
    rw [← List.drop_drop, List.drop_left]
    rfl
  have hend : (a ++ List.replicate (k + 1) (0 : Byte)).drop (a.length + k) = [0] := by
    rw [← List.drop_drop, List.drop_left, List.drop_replicate, Nat.add_sub_cancel_left]
    rfl
  rw [memmove, List.take_left, hdrop, hend, List.take_of_length_le (by simp), List.append_assoc,
    ← List.replicate_succ']

/-- One turn of the loop. -/
lemma cstyleLoop_step {fuel k : ℕ} {front p : Bytes} (hp : (92 : Byte) ∉ p)
    (hrest : (0 : Byte) ∉ p ++ 92 :: tail) {front' : Bytes}
    (hfront : front' = front ++ (p ++ [(turn sc value tail).char])) :
    cstyleLoop sc (front.length + (p ++ 92 :: tail).length + k) (fuel + 1)
        (front ++ (p ++ 92 :: tail ++ List.replicate (k + 1) 0)) front.length value =
      cstyleLoop sc (front.length + (p ++ 92 :: tail).length + k) fuel
        (memmove (front' ++ (tail ++ List.replicate (k + 1) 0)) front'.length
          (front'.length + (turn sc value tail).nlen)
          (tail.length + (k + 1) - (turn sc value tail).nlen))
        front'.length (turn sc value tail).value := by
  have hstring : cString ((front ++ (p ++ 92 :: tail ++ List.replicate (k + 1) 0)).drop
      front.length) = p ++ 92 :: tail := by
    rw [List.drop_left, cString_append_zeros hrest]
  have hchr : strchr (front ++ (p ++ 92 :: tail ++ List.replicate (k + 1) 0)) front.length 92 =
      some (front.length + p.length) := by
    rw [strchr, hstring, if_pos (List.mem_append_right _ List.mem_cons_self),
      List.idxOf_append_of_notMem hp, List.idxOf_cons_self, Nat.add_zero]
  have hbuf : front ++ (p ++ 92 :: tail ++ List.replicate (k + 1) 0) =
      (front ++ p) ++ 92 :: (tail ++ List.replicate (k + 1) 0) := by
    simp
  have hlength : front'.length = front.length + p.length + 1 := by
    rw [hfront]
    simp only [List.length_append, List.length_singleton]
    omega
  have hnext : cString ((front ++ (p ++ 92 :: tail ++ List.replicate (k + 1) 0)).drop
      (front.length + p.length + 1)) = tail := by
    rw [hbuf, ← List.length_append, ← List.drop_drop, List.drop_left]
    refine cString_append_zeros (fun hmem => hrest ?_) k
    exact List.mem_append_right _ (List.mem_cons_of_mem _ hmem)
  have hset : (front ++ (p ++ 92 :: tail ++ List.replicate (k + 1) 0)).set
      (front.length + p.length) (turn sc value tail).char =
      front' ++ (tail ++ List.replicate (k + 1) 0) := by
    rw [hbuf, ← List.length_append, List.set_append_right _ _ le_rfl, Nat.sub_self,
      List.set_cons_zero, hfront]
    simp
  have hmoved : front.length + (p ++ 92 :: tail).length + k -
      (front.length + p.length + (turn sc value tail).nlen) =
      tail.length + (k + 1) - (turn sc value tail).nlen := by
    rw [List.length_append, List.length_cons]
    omega
  rw [cstyleLoop, hchr]
  dsimp only
  rw [hnext, hset, hmoved, hlength]

/-- The loop translates what is in front of the zeros, and leaves what is in front of its
position. -/
lemma cstyleLoop_eq {fuel k : ℕ} {front rest : Bytes} (hrest : (0 : Byte) ∉ rest)
    (hfuel : rest.length < fuel) {r : Bytes × ℕ}
    (hr : cstyleLoop sc (front.length + rest.length + k) fuel
      (front ++ (rest ++ List.replicate (k + 1) 0)) front.length value = r) :
    r.1.take r.2 ++ cString (r.1.drop r.2) = front ++ translate sc value rest := by
  induction fuel generalizing front rest k value with
  | zero => cases hfuel
  | succ fuel ih =>
    -- a turn for each backslash; a character that is removed leaves one more zero at the end
    by_cases hmem : (92 : Byte) ∈ rest
    · obtain ⟨p, tail, rfl, hp⟩ := List.eq_append_cons_of_mem hmem
      have htail : (0 : Byte) ∉ tail := fun h =>
        hrest (List.mem_append_right _ (List.mem_cons_of_mem _ h))
      obtain ⟨front', hfront⟩ : ∃ l, l = front ++ (p ++ [(turn sc value tail).char]) := ⟨_, rfl⟩
      have hlength : front'.length = front.length + p.length + 1 := by
        rw [hfront]
        simp only [List.length_append, List.length_singleton]
        omega
      rw [cstyleLoop_step hp hrest hfront] at hr
      rw [List.length_append, List.length_cons] at hfuel hr
      rw [translate_append _ _ _ hp]
      cases tail with
      | nil =>
        -- `default`: the zero behind the end is moved to the end
        rw [show (turn sc value []).nlen = 1 from rfl, List.nil_append, List.length_nil,
          show 0 + (k + 1) - 1 = k by omega, memmove_end,
          show front.length + (p.length + (0 + 1)) + k =
            front'.length + ([] : Bytes).length + k by
              rw [hlength, List.length_nil]
              omega] at hr
        rw [@ih _ _ _ [] htail (by rw [List.length_nil] at hfuel ⊢; omega) hr, hfront,
          translate, translate, List.append_nil]
        rfl
      | cons c tail =>
        rw [translate, if_pos rfl]
        rcases turn_nlen sc value (c :: tail) with hnlen | hnlen
        · -- `sscanf` has made no conversion
          rw [hnlen, Nat.add_zero front'.length, memmove_self,
            show front.length + (p.length + ((c :: tail).length + 1)) + k =
              front'.length + (c :: tail).length + k by
                rw [hlength]
                omega] at hr
          rw [ih htail (by omega) hr, hfront, if_pos hnlen, List.append_assoc, List.append_assoc]
          rfl
        · -- one character is removed, however many were read
          rw [hnlen, List.length_cons, show tail.length + 1 + (k + 1) - 1 = tail.length + (k + 1) by
            omega, memmove_one,
            show front.length + (p.length + (tail.length + 1 + 1)) + k =
              front'.length + tail.length + (k + 1) by
                rw [hlength]
                omega] at hr
          rw [List.length_cons] at hfuel
          rw [ih (fun h => htail (List.mem_cons_of_mem _ h)) (by omega) hr, hfront,
            if_neg (by rw [hnlen]; decide), List.append_assoc, List.append_assoc]
          rfl
    · -- no backslash is left
      have hstring : cString ((front ++ (rest ++ List.replicate (k + 1) 0)).drop front.length) =
          rest := by
        rw [List.drop_left, cString_append_zeros hrest]
      rw [cstyleLoop, strchr, hstring, if_neg hmem] at hr
      subst hr
      have htranslate := translate_append sc value [] hmem
      rw [List.append_nil, translate, List.append_nil] at htranslate
      rw [htranslate]
      dsimp only
      rw [List.take_left, hstring]

lemma cstyle_eq (sc : Scanner) (hs : (0 : Byte) ∉ s) :
    cstyle sc s = translate sc sc.unset s := by
  have hloop := @cstyleLoop_eq sc sc.unset _ 0 [] s hs (Nat.lt_succ_self _) _ rfl
  rw [List.length_nil, Nat.zero_add] at hloop
  exact hloop

/-! ### Sequence by sequence -/

variable {t : Token} {ts : List Token}

lemma isOctal_ne {d : Byte} (h : isOctal d = true) : d ≠ 92 ∧ d ≠ 0 := by
  constructor <;> rintro rfl <;> exact absurd h (by decide)

lemma isHexDigit_ne {d : Byte} (h : isHexDigit d = true) : d ≠ 92 ∧ d ≠ 0 := by
  constructor <;> rintro rfl <;> exact absurd h (by decide)

lemma zero_notMem_text (h : WellFormed ts) : (0 : Byte) ∉ text ts := by
  induction ts with
  | nil => exact List.not_mem_nil
  | cons t ts ih =>
    obtain ⟨ht, hts⟩ := h
    rw [text, List.flatMap_cons, List.mem_append, not_or]
    refine ⟨?_, ih hts⟩
    cases t with
    | plain b => exact fun hmem => ht.2 (List.mem_singleton.1 hmem).symm
    | simple b =>
      intro hmem
      rcases List.mem_cons.1 hmem with h0 | hmem
      · exact absurd h0 (by decide)
      · obtain rfl := List.mem_singleton.1 hmem
        exact absurd ht (show (0 : Byte) ∉ simpleEscapes.map Prod.fst by decide)
    | octal ds =>
      intro hmem
      rcases List.mem_cons.1 hmem with h0 | hmem
      · exact absurd h0 (by decide)
      · exact (isOctal_ne (ht.1 0 hmem)).2 rfl
    | hex ds =>
      intro hmem
      rcases List.mem_cons.1 hmem with h0 | hmem
      · exact absurd h0 (by decide)
      · rcases List.mem_cons.1 hmem with h0 | hmem
        · exact absurd h0 (by decide)
        · exact (isHexDigit_ne (ht.2.1 0 hmem)).2 rfl

/-- A letter or another single character behind the backslash. -/
lemma translate_simple {b : Byte} (hb : b ∈ simpleEscapes.map Prod.fst) :
    translate sc value (92 :: b :: s) =
      (if b ∈ [39, 34, 63] then 92 else (Token.simple b).char) :: translate sc value s := by
  rw [translate, if_pos rfl, turn, firstChar, List.headD_cons]
  simp only [simpleEscapes, List.map_cons, List.map_nil, List.mem_cons, List.not_mem_nil,
    or_false] at hb
  rcases hb with rfl | rfl | rfl | rfl | rfl | rfl | rfl | rfl | rfl | rfl | rfl <;> rfl

/-- The turn at an octal number. -/
lemma turn_octal {d : Byte} (hd : isOctal d = true) :
    turn sc value (d :: s) =
      scanned sc value (some (readNumeral 8 ((d :: s).takeWhile isOctal))) := by
  have hall : ∀ n < 256, isOctal (UInt8.ofNat n) = true →
      letters.lookup (UInt8.ofNat n) = none := by
    decide +kernel
  have hletter := hall d.toNat d.toNat_lt
  rw [UInt8.ofNat_toNat] at hletter
  have hne : (d :: s).takeWhile isOctal ≠ [] := by
    rw [List.takeWhile_cons, if_pos hd]
    exact List.cons_ne_nil _ _
  rw [turn, firstChar, List.headD_cons, hletter hd]
  dsimp only
  rw [if_pos hd, sscanf, if_neg hne]

/-- Behind the character that an octal number stands for, its digits are left but the first one. -/
lemma translate_octal (sc : Scanner) (value : ℕ) (s : Bytes) {d : Byte} {ds : Bytes}
    (hds : ∀ c ∈ d :: ds, isOctal c = true) :
    ∃ c v, translate sc value (92 :: d :: ds ++ s) = c :: (ds ++ translate sc v s) ∧
      (ds = [] → (∀ c ∈ s.head?, isOctal c = false) → c = (Token.octal [d]).char) := by
  have hd := hds d List.mem_cons_self
  refine ⟨UInt8.ofNat (sc.store (readNumeral 8 ((d :: (ds ++ s)).takeWhile isOctal))),
    sc.store (readNumeral 8 ((d :: (ds ++ s)).takeWhile isOctal)), ?_, ?_⟩
  · rw [List.cons_append, List.cons_append, translate, if_pos rfl, turn_octal hd]
    have hplain : (92 : Byte) ∉ ds := fun hmem =>
      (isOctal_ne (hds 92 (List.mem_cons_of_mem _ hmem))).1 rfl
    rw [scanned, if_neg Nat.one_ne_zero, translate_append _ _ _ hplain]
  · rintro rfl hs
    have hstop : s.takeWhile isOctal = [] := by
      cases s with
      | nil => rfl
      | cons c s => rw [List.takeWhile_cons, hs c rfl]; rfl
    have hall : ∀ n < 256, readNumeral 8 [UInt8.ofNat n] < 2 ^ 32 := by decide +kernel
    have hlt := hall d.toNat d.toNat_lt
    rw [UInt8.ofNat_toNat] at hlt
    rw [List.nil_append, List.takeWhile_cons, if_pos hd, hstop, Scanner.store, if_pos hlt]
    rfl

/-- Nothing is removed behind `\x`. -/
lemma translate_hex {ds : Bytes} (hds : ∀ c ∈ ds, isHexDigit c = true) :
    translate sc value (92 :: 120 :: ds ++ s) =
      UInt8.ofNat value :: 120 :: (ds ++ translate sc value s) := by
  have hplain : (92 : Byte) ∉ 120 :: ds := by
    rw [List.mem_cons, not_or]
    exact ⟨by decide, fun hmem => (isHexDigit_ne (hds 92 hmem)).1 rfl⟩
  have hturn : turn sc value (120 :: (ds ++ s)) = ⟨UInt8.ofNat value, 0, value⟩ := rfl
  rw [List.cons_append, List.cons_append, translate, if_pos rfl, hturn, if_pos rfl,
    ← List.cons_append, translate_append _ _ _ hplain, List.cons_append]

/-- No sequence loses its place. -/
lemma length_le_translate (sc : Scanner) (value : ℕ) (h : WellFormed ts) :
    ts.length ≤ (translate sc value (text ts)).length := by
  induction ts generalizing value with
  | nil => exact Nat.zero_le _
  | cons t ts ih =>
    obtain ⟨ht, hts⟩ := h
    rw [text, List.flatMap_cons, ← text, List.length_cons]
    cases t with
    | plain b =>
      rw [Token.text, List.singleton_append, translate_cons ht.1, List.length_cons]
      exact Nat.succ_le_succ (ih _ hts)
    | simple b =>
      rw [Token.text, List.cons_append, List.singleton_append, translate_simple ht,
        List.length_cons]
      exact Nat.succ_le_succ (ih _ hts)
    | octal ds =>
      obtain ⟨hds, hlength⟩ := ht
      cases ds with
      | nil => simp at hlength
      | cons d ds =>
        obtain ⟨c, v, htranslate, -⟩ := translate_octal sc value (text ts) hds
        have hle := ih v hts
        rw [Token.text, htranslate, List.length_cons, List.length_append]
        omega
    | hex ds =>
      have hle := ih value hts
      rw [Token.text, translate_hex ht.2.1, List.length_cons, List.length_cons,
        List.length_append]
      omega

lemma char_ne_backslash {b : Byte} (hb : b ∈ ([39, 34, 63] : Bytes)) :
    (Token.simple b).char ≠ 92 := by
  simp only [List.mem_cons, List.not_mem_nil, or_false] at hb
  rcases hb with rfl | rfl | rfl <;> decide

/-- The text is translated as in C, just when every sequence is one for which `cstyle` does so. -/
lemma translate_eq_iff (h : WellFormed ts) :
    translate sc value (text ts) = ts.map Token.char ↔ ∀ t ∈ ts, t.Translated := by
  induction ts generalizing value with
  | nil => exact iff_of_true rfl (by simp)
  | cons t ts ih =>
    obtain ⟨ht, hts⟩ := h
    rw [text, List.flatMap_cons, ← text, List.map_cons, List.forall_mem_cons]
    cases t with
    | plain b =>
      rw [Token.text, List.singleton_append, translate_cons ht.1, List.cons.injEq, ih hts]
      exact and_congr_left' (iff_of_true rfl trivial)
    | simple b =>
      rw [Token.text, List.cons_append, List.singleton_append, translate_simple ht,
        List.cons.injEq, ih hts]
      refine and_congr_left' ?_
      rw [Token.Translated]
      split_ifs with hquote
      · exact iff_of_false (char_ne_backslash hquote).symm (not_not.2 hquote)
      · exact iff_of_true rfl hquote
    | octal ds =>
      obtain ⟨hds, hlength⟩ := ht
      cases ds with
      | nil => simp at hlength
      | cons d ds =>
        obtain ⟨c, v, htranslate, hchar⟩ := translate_octal sc value (text ts) hds
        rw [Token.text, htranslate]
        cases ds with
        | nil =>
          have hstop : ∀ c ∈ (text ts).head?, isOctal c = false := by
            rcases hlength with hlength | ⟨-, hstop⟩
            · simp at hlength
            · exact hstop
          rw [hchar rfl hstop, List.nil_append, List.cons.injEq, ih hts]
          exact and_congr_left' (iff_of_true rfl rfl)
        | cons e ds =>
          -- the digits behind the first one are left
          refine iff_of_false (fun heq => ?_) fun hall => absurd hall.1 (by simp [Token.Translated])
          have hle := length_le_translate sc v hts
          have hlen := congrArg List.length heq
          simp only [List.length_cons, List.length_append, List.length_map] at hlen
          omega
    | hex ds =>
      rw [Token.text, translate_hex ht.2.1]
      refine iff_of_false (fun heq => ?_) fun hall => hall.1
      have hle := length_le_translate sc value hts
      have hlen := congrArg List.length heq
      simp only [List.length_cons, List.length_append, List.length_map] at hlen
      omega

/-- `cstyle` gives the characters that C gives the sequences, just when there is no number but those
of one octal digit, and no quotation or question mark behind a backslash. -/
theorem cstyle_iff (sc : Scanner) (h : WellFormed ts) :
    cstyle sc (text ts) = ts.map Token.char ↔ ∀ t ∈ ts, t.Translated := by
  rw [cstyle_eq sc (zero_notMem_text h)]
  exact translate_eq_iff h

/-- A tab, a number of one digit, and a backslash. -/
theorem cstyle_iff_letters :
    cstyle ⟨0, id⟩ (text [.plain 97, .simple 116, .octal [55], .plain 98, .simple 92]) =
        [.plain 97, .simple 116, .octal [55], .plain 98, .simple 92].map Token.char ↔
      ∀ t ∈ [Token.plain 97, .simple 116, .octal [55], .plain 98, .simple 92], t.Translated :=
  cstyle_iff ⟨0, id⟩ (by simp [WellFormed, Token.Valid, simpleEscapes, text, Token.text, isOctal])

/-- A letter with its octal number keeps two of the digits. -/
theorem not_cstyle :
    WellFormed [.octal [49, 48, 49]] ∧ text [.octal [49, 48, 49]] = ascii "\\101" ∧
      [Token.octal [49, 48, 49]].map Token.char = ascii "A" ∧
      cstyle ⟨0, id⟩ (text [.octal [49, 48, 49]]) = ascii "A01" ∧
      cstyle ⟨0, id⟩ (text [.octal [49, 48, 49]]) ≠ [Token.octal [49, 48, 49]].map Token.char := by
  refine ⟨?_, rfl, rfl, by decide +kernel, by decide +kernel⟩
  simp [WellFormed, Token.Valid, isOctal]

end PionCore.Platform.CStyle
