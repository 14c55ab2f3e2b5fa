/-
# Text that is encoded for XML

`ConfigManager::xml_encode` writes entities for the characters of markup, and the replacement
character for bytes that are not part of a sequence of UTF-8.  It looks at the first byte of a
sequence and at the number of the bytes behind it, so that overlong forms, surrogates, numbers above
the last code point, and the last two code points of the plane come through.
-/
import PionCore.Lib.UTF8
import PionCore.Platform.ConfigManager

namespace PionCore.Platform

open PionCore.Lib

variable {s t w : Bytes} {c d e f : Byte}

/-- The characters of XML 1.0. -/
def isXMLChar (c : Char) : Bool :=
  c.val = 9 ∨ c.val = 10 ∨ c.val = 13 ∨ 32 ≤ c.val ∧ c.val ≤ 0xD7FF ∨
    0xE000 ≤ c.val ∧ c.val ≤ 0xFFFD ∨ 0x10000 ≤ c.val ∧ c.val ≤ 0x10FFFF

/-- The encoding of characters of XML. -/
def IsCharacterData (s : Bytes) : Prop :=
  ∃ cs : List Char, s = cs.flatMap String.utf8EncodeChar ∧ ∀ c ∈ cs, isXMLChar c = true

/-- No character of markup stands by itself, and a `&` only in front of an entity. -/
def IsEscaped (s : Bytes) : Prop :=
  (∀ c ∈ s, c ≠ 60 ∧ c ≠ 62 ∧ c ≠ 34 ∧ c ≠ 39) ∧
    ∀ before after, s = before ++ 38 :: after → (xmlEntityAt (38 :: after)).isSome = true

/-- A sequence of the right form that is no character of XML: an overlong form, a surrogate, one of
the code points U+FFFE and U+FFFF, or a number above the last code point. -/
def isForbidden : Bytes → Bool
  | [c, d, e] => isContinuation d && isContinuation e &&
      (c = 224 && d < 160 || c = 237 && 159 < d || c = 239 && d = 191 && 190 ≤ e)
  | [c, d, e, f] => isContinuation d && isContinuation e && isContinuation f &&
      (c = 240 && d < 144 || c = 244 && 143 < d)
  | _ => false

/-! ### Markup -/

lemma isEscaped_nil : IsEscaped [] := by
  refine ⟨fun c hc => absurd hc List.not_mem_nil, fun before after h => ?_⟩
  simp at h

/-- A byte that is no markup. -/
lemma IsEscaped.cons (hs : IsEscaped s) (hc : c ≠ 60 ∧ c ≠ 62 ∧ c ≠ 34 ∧ c ≠ 39) (hamp : c ≠ 38) :
    IsEscaped (c :: s) := by
  refine ⟨List.forall_mem_cons.2 ⟨hc, hs.1⟩, fun before after h => ?_⟩
  cases before with
  | nil => exact absurd (List.cons.inj h).1 hamp
  | cons b before => exact hs.2 before after (List.cons.inj h).2

lemma IsEscaped.high (hs : IsEscaped s) (hc : 128 ≤ c) : IsEscaped (c :: s) := by
  have hne : ∀ b : Byte, b < 128 → c ≠ b := fun b hb heq => UInt8.not_le.2 hb (heq ▸ hc)
  exact hs.cons ⟨hne 60 (by decide), hne 62 (by decide), hne 34 (by decide), hne 39 (by decide)⟩
    (hne 38 (by decide))

/-- The rest of an entity has neither markup nor another `&`. -/
lemma IsEscaped.append (hs : IsEscaped s)
    (hw : ∀ c ∈ w, c ≠ 60 ∧ c ≠ 62 ∧ c ≠ 34 ∧ c ≠ 39 ∧ c ≠ 38) : IsEscaped (w ++ s) := by
  induction w with
  | nil => exact hs
  | cons c w ih =>
    obtain ⟨⟨h60, h62, h34, h39, h38⟩, hw⟩ := List.forall_mem_cons.1 hw
    exact (ih hw).cons ⟨h60, h62, h34, h39⟩ h38

lemma IsEscaped.entity (hs : IsEscaped s) (entity : Bytes × Byte) (he : entity ∈ xmlEntities) :
    IsEscaped (entity.1 ++ s) := by
  have hform : ∀ entity ∈ xmlEntities, entity.1 = 38 :: entity.1.tail ∧
      ∀ c ∈ entity.1.tail, c ≠ 60 ∧ c ≠ 62 ∧ c ≠ 34 ∧ c ≠ 39 ∧ c ≠ 38 := by
    decide +kernel
  obtain ⟨hfirst, hrest⟩ := hform entity he
  have htail := hs.append hrest
  have hfind : (xmlEntityAt (entity.1 ++ s)).isSome = true := by
    rw [xmlEntityAt, List.find?_isSome]
    exact ⟨entity, he, List.isPrefixOf_iff_prefix.2 (List.prefix_append _ _)⟩
  rw [hfirst, List.cons_append] at hfind ⊢
  refine ⟨List.forall_mem_cons.2 ⟨by decide, htail.1⟩, fun before after h => ?_⟩
  cases before with
  | nil =>
    rw [List.nil_append] at h
    rwa [← h]
  | cons b before => exact htail.2 before after (List.cons.inj h).2

lemma IsEscaped.xmlEscape (hs : IsEscaped s) (c : Byte) : IsEscaped (xmlEscape c ++ s) := by
  rw [Platform.xmlEscape]
  split_ifs with h38 h60 h62 h34 h39
  · exact hs.entity (ascii "&amp;", 38) (by decide)
  · exact hs.entity (ascii "&lt;", 60) (by decide)
  · exact hs.entity (ascii "&gt;", 62) (by decide)
  · exact hs.entity (ascii "&quot;", 34) (by decide)
  · exact hs.entity (ascii "&apos;", 39) (by decide)
  · exact hs.cons ⟨h60, h62, h34, h39⟩ h38

lemma IsEscaped.replacementChar (hs : IsEscaped s) : IsEscaped (replacementChar ++ s) :=
  ((hs.high (by decide)).high (by decide)).high (by decide)

/-! ### Forbidden sequences -/

lemma not_isXMLAscii (hc : 128 ≤ c) : ¬ isXMLAscii c = true := by
  simp only [isXMLAscii, decide_eq_true_eq, UInt8.le_iff_toNat_le, ← UInt8.toNat_inj] at hc ⊢
  intro h
  simp at hc h
  omega

/-- The first byte of a sequence of three bytes is not one of two or of four. -/
lemma not_isTwoByteChar (hlow : 224 ≤ c) (d : Byte) : isTwoByteChar c d = false :=
  decide_eq_false fun h => absurd (UInt8.le_trans hlow h.2.1) (by decide)

lemma not_four_of_three (hhigh : c ≤ 239) : ¬ 240 ≤ c :=
  fun hlow => absurd (UInt8.le_trans hlow hhigh) (by decide)

lemma isForbidden_three : isForbidden [c, d, e] = true ↔ 224 ≤ c ∧ c ≤ 239 ∧
    isContinuation d = true ∧ isContinuation e = true ∧ isThreeByteChar c d e = false := by
  simp only [isForbidden, isThreeByteChar, isContinuation, Bool.and_eq_true, Bool.or_eq_true,
    decide_eq_true_eq, decide_eq_false_iff_not, UInt8.le_iff_toNat_le, UInt8.lt_iff_toNat_lt,
    ← UInt8.toNat_inj, UInt8.reduceToNat]
  omega

lemma isForbidden_four : isForbidden [c, d, e, f] = true ↔ 240 ≤ c ∧ c ≤ 244 ∧
    isContinuation d = true ∧ isContinuation e = true ∧ isContinuation f = true ∧
      isFourByteChar c d e f = false := by
  simp only [isForbidden, isFourByteChar, isContinuation, Bool.and_eq_true, Bool.or_eq_true,
    decide_eq_true_eq, decide_eq_false_iff_not, UInt8.le_iff_toNat_le, UInt8.lt_iff_toNat_lt,
    ← UInt8.toNat_inj, UInt8.reduceToNat]
  omega

/-- A forbidden sequence has the form of one of three bytes or of one of four. -/
lemma isForbidden_iff : isForbidden w = true ↔
    (∃ c d e, w = [c, d, e] ∧ 224 ≤ c ∧ c ≤ 239 ∧ isContinuation d = true ∧
      isContinuation e = true ∧ isThreeByteChar c d e = false) ∨
    (∃ c d e f, w = [c, d, e, f] ∧ 240 ≤ c ∧ c ≤ 244 ∧ isContinuation d = true ∧
      isContinuation e = true ∧ isContinuation f = true ∧ isFourByteChar c d e f = false) := by
  constructor
  · intro h
    match w, h with
    | [c, d, e], h => exact Or.inl ⟨c, d, e, rfl, isForbidden_three.1 h⟩
    | [c, d, e, f], h => exact Or.inr ⟨c, d, e, f, rfl, isForbidden_four.1 h⟩
  · rintro (⟨c, d, e, rfl, h⟩ | ⟨c, d, e, f, rfl, h⟩)
    · exact isForbidden_three.2 h
    · exact isForbidden_four.2 h

/-- Only the first byte of a sequence of three or four bytes is the first one of a forbidden
sequence. -/
lemma not_prefix_cons (hc : ¬ (224 ≤ c ∧ c ≤ 244)) (hw : isForbidden w = true) (s : Bytes) :
    ¬ w <+: c :: s := by
  intro hprefix
  rcases isForbidden_iff.1 hw with
    ⟨c', d, e, rfl, hlow, hhigh, -⟩ | ⟨c', d, e, f, rfl, hlow, hhigh, -⟩
  · obtain ⟨rfl, -⟩ := List.cons_prefix_cons.1 hprefix
    exact hc ⟨hlow, UInt8.le_trans hhigh (by decide)⟩
  · obtain ⟨rfl, -⟩ := List.cons_prefix_cons.1 hprefix
    exact hc ⟨UInt8.le_trans (by decide) hlow, hhigh⟩

/-- No forbidden sequence is anywhere in the text. -/
def IsStrict (s : Bytes) : Prop := ∀ w, w <:+: s → isForbidden w = false

lemma isStrict_nil : IsStrict [] := by
  intro w hw
  rw [List.infix_nil.1 hw]
  rfl

lemma isStrict_cons : IsStrict (c :: s) ↔
    (∀ w, isForbidden w = true → ¬ w <+: c :: s) ∧ IsStrict s := by
  constructor
  · intro h
    refine ⟨fun w hw hprefix => ?_, fun w hw => h w (hw.trans (List.suffix_cons c s).isInfix)⟩
    rw [h w hprefix.isInfix] at hw
    exact Bool.false_ne_true hw
  · rintro ⟨hfront, hs⟩ w hw
    rcases List.infix_cons_iff.1 hw with hprefix | hw
    · by_contra hforbidden
      exact hfront w (eq_true_of_ne_false hforbidden) hprefix
    · exact hs w hw

lemma isStrict_cons_of_not (hc : ¬ (224 ≤ c ∧ c ≤ 244)) : IsStrict (c :: s) ↔ IsStrict s := by
  rw [isStrict_cons]
  exact and_iff_right fun w hw => not_prefix_cons hc hw s

lemma not_lead_of_isContinuation (hd : isContinuation d = true) : ¬ (224 ≤ d ∧ d ≤ 244) := by
  simp only [isContinuation, decide_eq_true_eq] at hd
  exact fun h => absurd (UInt8.le_trans h.1 hd.2) (by decide)

/-- A sequence of three bytes in front of a text. -/
lemma isStrict_three (hlow : 224 ≤ c) (hhigh : c ≤ 239) (hd : isContinuation d = true)
    (he : isContinuation e = true) :
    IsStrict (c :: d :: e :: s) ↔ isThreeByteChar c d e = true ∧ IsStrict s := by
  rw [isStrict_cons, isStrict_cons_of_not (not_lead_of_isContinuation hd),
    isStrict_cons_of_not (not_lead_of_isContinuation he)]
  refine and_congr_left fun _ => ?_
  constructor
  · intro h
    by_contra hnot
    refine h [c, d, e] (isForbidden_iff.2 (Or.inl ?_)) ⟨s, rfl⟩
    exact ⟨c, d, e, rfl, hlow, hhigh, hd, he, eq_false_of_ne_true hnot⟩
  · intro hchar w hw hprefix
    rcases isForbidden_iff.1 hw with
      ⟨c', d', e', rfl, -, -, -, -, hnot⟩ | ⟨c', _, _, _, rfl, h240, -⟩
    · simp only [List.cons_prefix_cons] at hprefix
      obtain ⟨rfl, rfl, rfl, -⟩ := hprefix
      rw [hchar] at hnot
      cases hnot
    · obtain ⟨rfl, -⟩ := List.cons_prefix_cons.1 hprefix
      exact absurd h240 (not_four_of_three hhigh)

/-- A sequence of four bytes in front of a text. -/
lemma isStrict_four (hlow : 240 ≤ c) (hhigh : c ≤ 244) (hd : isContinuation d = true)
    (he : isContinuation e = true) (hf : isContinuation f = true) :
    IsStrict (c :: d :: e :: f :: s) ↔ isFourByteChar c d e f = true ∧ IsStrict s := by
  rw [isStrict_cons, isStrict_cons_of_not (not_lead_of_isContinuation hd),
    isStrict_cons_of_not (not_lead_of_isContinuation he),
    isStrict_cons_of_not (not_lead_of_isContinuation hf)]
  refine and_congr_left fun _ => ?_
  constructor
  · intro h
    by_contra hnot
    refine h [c, d, e, f] (isForbidden_iff.2 (Or.inr ?_)) ⟨s, rfl⟩
    exact ⟨c, d, e, f, rfl, hlow, hhigh, hd, he, hf, eq_false_of_ne_true hnot⟩
  · intro hchar w hw hprefix
    rcases isForbidden_iff.1 hw with
      ⟨c', _, _, rfl, -, h239, -⟩ | ⟨_, _, _, _, rfl, -, -, -, -, -, hnot⟩
    · obtain ⟨rfl, -⟩ := List.cons_prefix_cons.1 hprefix
      exact absurd hlow (not_four_of_three h239)
    · simp only [List.cons_prefix_cons] at hprefix
      obtain ⟨rfl, rfl, rfl, rfl, -⟩ := hprefix
      rw [hchar] at hnot
      cases hnot

/-! ### The turns of the scanner -/

/-- What one turn of the scanner takes from a text, and what it writes. -/
inductive Turn (c : Byte) : Bytes → Bytes → Bytes → Prop where
  /-- a character of ASCII -/
  | ascii (s : Bytes) (hc : isXMLAscii c = true) : Turn c s (xmlEscape c) s
  | two (d : Byte) (t : Bytes) (hlow : 194 ≤ c) (hhigh : c ≤ 223) (hd : isContinuation d = true) :
      Turn c (d :: t) [c, d] t
  | three (d e : Byte) (t : Bytes) (hlow : 224 ≤ c) (hhigh : c ≤ 239)
      (hd : isContinuation d = true) (he : isContinuation e = true) :
      Turn c (d :: e :: t) [c, d, e] t
  | four (d e f : Byte) (t : Bytes) (hlow : 240 ≤ c) (hhigh : c ≤ 244)
      (hd : isContinuation d = true) (he : isContinuation e = true)
      (hf : isContinuation f = true) : Turn c (d :: e :: f :: t) [c, d, e, f] t
  /-- the sequence is broken, or the byte is no first byte of one -/
  | broken (s : Bytes) (hw : ∀ w, isForbidden w = true → ¬ w <+: c :: s) :
      Turn c s replacementChar s

/-- A first byte of three without the two behind it. -/
lemma not_prefix_three (hhigh : c ≤ 239)
    (hs : ∀ d e t, s = d :: e :: t → ¬ (isContinuation d = true ∧ isContinuation e = true)) :
    ∀ w, isForbidden w = true → ¬ w <+: c :: s := by
  intro w hw hprefix
  rcases isForbidden_iff.1 hw with ⟨c', d, e, rfl, -, -, hd, he, -⟩ | ⟨c', d, e, f, rfl, h240, -⟩
  · obtain ⟨-, t, ht⟩ := List.cons_prefix_cons.1 hprefix
    exact hs d e t ht.symm ⟨hd, he⟩
  · obtain ⟨rfl, -⟩ := List.cons_prefix_cons.1 hprefix
    exact absurd h240 (not_four_of_three hhigh)

/-- A first byte of four without the three behind it. -/
lemma not_prefix_four (hlow : 240 ≤ c)
    (hs : ∀ d e f t, s = d :: e :: f :: t →
      ¬ (isContinuation d = true ∧ isContinuation e = true ∧ isContinuation f = true)) :
    ∀ w, isForbidden w = true → ¬ w <+: c :: s := by
  intro w hw hprefix
  rcases isForbidden_iff.1 hw with
    ⟨c', d, e, rfl, -, h239, -⟩ | ⟨_, d, e, f, rfl, -, -, hd, he, hf, -⟩
  · obtain ⟨rfl, -⟩ := List.cons_prefix_cons.1 hprefix
    exact absurd hlow (not_four_of_three h239)
  · obtain ⟨-, t, ht⟩ := List.cons_prefix_cons.1 hprefix
    exact hs d e f t ht.symm ⟨hd, he, hf⟩

lemma exists_turn (c : Byte) (s : Bytes) :
    ∃ out t, Turn c s out t ∧ xmlEncode (c :: s) = out ++ xmlEncode t := by
  rw [xmlEncode.eq_def]
  dsimp only
  split_ifs with hascii htwo hthree hfour
  · exact ⟨_, s, .ascii s hascii, rfl⟩
  · have hlead : ¬ (224 ≤ c ∧ c ≤ 244) := fun h => absurd (UInt8.le_trans h.1 htwo.2) (by decide)
    split
    · split_ifs with hd
      · exact ⟨_, _, .two _ _ htwo.1 htwo.2 hd, rfl⟩
      · exact ⟨_, _, .broken _ fun w hw => not_prefix_cons hlead hw _, rfl⟩
    · exact ⟨_, _, .broken _ fun w hw => not_prefix_cons hlead hw _, (List.append_nil _).symm⟩
  · split
    · split_ifs with hcont
      · exact ⟨_, _, .three _ _ _ hthree.1 hthree.2 hcont.1 hcont.2, rfl⟩
      · refine ⟨_, _, .broken _ (not_prefix_three hthree.2 ?_), rfl⟩
        rintro d e t heq
        cases heq
        exact hcont
    · rename_i hshort
      exact ⟨_, _, .broken _ (not_prefix_three hthree.2 fun d e t h => (hshort d e t h).elim), rfl⟩
  · split
    · split_ifs with hcont
      · exact ⟨_, _, .four _ _ _ _ hfour.1 hfour.2 hcont.1 hcont.2.1 hcont.2.2, rfl⟩
      · refine ⟨_, _, .broken _ (not_prefix_four hfour.1 ?_), rfl⟩
        rintro d e f t heq
        cases heq
        exact hcont
    · rename_i hshort
      refine ⟨_, _, .broken _ (not_prefix_four hfour.1 ?_), rfl⟩
      exact fun d e f t h => (hshort d e f t h).elim
  · have hlead : ¬ (224 ≤ c ∧ c ≤ 244) := by
      rintro ⟨hlow, hhigh⟩
      by_cases h : c ≤ 239
      · exact hthree ⟨hlow, h⟩
      · refine hfour ⟨?_, hhigh⟩
        simp only [UInt8.le_iff_toNat_le, UInt8.reduceToNat] at h ⊢
        omega
    exact ⟨_, _, .broken _ fun w hw => not_prefix_cons hlead hw _, rfl⟩

lemma Turn.length_le {out t : Bytes} (h : Turn c s out t) : t.length ≤ s.length := by
  cases h with
  | ascii _ hc => exact le_refl _
  | two d t hlow hhigh hd => exact Nat.le_succ _
  | three d e t hlow hhigh hd he => exact Nat.le_add_right _ 2
  | four d e f t hlow hhigh hd he hf => exact Nat.le_add_right _ 3
  | broken _ hw => exact le_refl _

lemma Turn.isEscaped {out t : Bytes} (h : Turn c s out t) (hw : IsEscaped w) :
    IsEscaped (out ++ w) := by
  have hlarge : ∀ b : Byte, 128 ≤ b → b ≤ c → 128 ≤ c := fun b hb hle => UInt8.le_trans hb hle
  cases h with
  | ascii _ hc => exact hw.xmlEscape c
  | two d t hlow hhigh hd =>
    exact (hw.high (isContinuation_ge hd)).high (hlarge 194 (by decide) hlow)
  | three d e t hlow hhigh hd he =>
    exact ((hw.high (isContinuation_ge he)).high (isContinuation_ge hd)).high
      (hlarge 224 (by decide) hlow)
  | four d e f t hlow hhigh hd he hf =>
    exact (((hw.high (isContinuation_ge hf)).high (isContinuation_ge he)).high
      (isContinuation_ge hd)).high (hlarge 240 (by decide) hlow)
  | broken _ hw' => exact hw.replacementChar

/-! ### Text of a document -/

lemma isXMLText_ascii (hc : isXMLAscii c = true) (s : Bytes) :
    isXMLText (c :: s) = isXMLText s := by
  rw [isXMLText.eq_def]
  exact if_pos hc

lemma isXMLText_append (hw : ∀ c ∈ w, isXMLAscii c = true) (s : Bytes) :
    isXMLText (w ++ s) = isXMLText s := by
  induction w with
  | nil => rfl
  | cons c w ih =>
    obtain ⟨hc, hw⟩ := List.forall_mem_cons.1 hw
    rw [List.cons_append, isXMLText_ascii hc, ih hw]

lemma isXMLText_xmlEscape (hc : isXMLAscii c = true) (s : Bytes) :
    isXMLText (xmlEscape c ++ s) = isXMLText s := by
  refine isXMLText_append ?_ s
  rw [xmlEscape]
  split_ifs
  · decide +kernel
  · decide +kernel
  · decide +kernel
  · decide +kernel
  · decide +kernel
  · exact List.forall_mem_singleton.2 hc

lemma isXMLText_two (hlow : 194 ≤ c) (hhigh : c ≤ 223) (hd : isContinuation d = true) (s : Bytes) :
    isXMLText (c :: d :: s) = isXMLText s := by
  have hchar : isTwoByteChar c d = true := decide_eq_true ⟨hlow, hhigh, hd⟩
  rw [isXMLText.eq_def]
  dsimp only
  rw [if_neg (not_isXMLAscii (UInt8.le_trans (by decide) hlow)), if_pos hchar]

lemma isXMLText_three (hlow : 224 ≤ c) (hhigh : c ≤ 239) (s : Bytes) :
    isXMLText (c :: d :: e :: s) = (isThreeByteChar c d e && isXMLText s) := by
  rw [isXMLText.eq_def]
  dsimp only
  rw [if_neg (not_isXMLAscii (UInt8.le_trans (by decide) hlow)), not_isTwoByteChar hlow,
    if_neg Bool.false_ne_true]
  cases isThreeByteChar c d e with
  | true => rfl
  | false =>
    rw [if_neg Bool.false_ne_true, Bool.false_and]
    cases s with
    | nil => rfl
    | cons f s =>
      have hfour : isFourByteChar c d e f = false :=
        decide_eq_false fun h => absurd h.1 (not_four_of_three hhigh)
      dsimp only
      rw [hfour, Bool.false_and]

lemma isXMLText_four (hlow : 240 ≤ c) (s : Bytes) :
    isXMLText (c :: d :: e :: f :: s) = (isFourByteChar c d e f && isXMLText s) := by
  have hlead : 224 ≤ c := UInt8.le_trans (by decide) hlow
  have hthree : isThreeByteChar c d e = false :=
    decide_eq_false fun h => absurd hlow (not_four_of_three h.2.1)
  rw [isXMLText.eq_def]
  dsimp only
  rw [if_neg (not_isXMLAscii (UInt8.le_trans (by decide) hlow)), not_isTwoByteChar hlead,
    if_neg Bool.false_ne_true, hthree, if_neg Bool.false_ne_true]

lemma isXMLChar_iff (c : Char) : isXMLChar c = true ↔
    c.val.toNat = 9 ∨ c.val.toNat = 10 ∨ c.val.toNat = 13 ∨
      32 ≤ c.val.toNat ∧ c.val.toNat ≠ 0xFFFE ∧ c.val.toNat ≠ 0xFFFF := by
  have hvalid := c.valid
  simp only [UInt32.isValidChar, Nat.isValidChar] at hvalid
  simp only [isXMLChar, decide_eq_true_eq, UInt32.le_iff_toNat_le, ← UInt32.toNat_inj,
    UInt32.reduceToNat]
  omega

/-- The encoding of a character of XML in front of a text. -/
lemma isXMLText_encode {a : Char} (ha : isXMLChar a = true) (s : Bytes) :
    isXMLText (String.utf8EncodeChar a ++ s) = isXMLText s := by
  have hxml := (isXMLChar_iff a).1 ha
  have hvalid := a.valid
  simp only [UInt32.isValidChar, Nat.isValidChar] at hvalid
  rw [String.utf8EncodeChar.eq_def]
  dsimp only
  generalize a.val.toNat = n at hxml hvalid
  split_ifs with h1 h2 h3
  · refine isXMLText_ascii ?_ s
    simp only [isXMLAscii, decide_eq_true_eq, UInt8.le_iff_toNat_le, ← UInt8.toNat_inj,
      UInt8.toNat_ofNat', UInt8.reduceToNat]
    omega
  · refine isXMLText_two ?_ ?_ ?_ s
    · simp only [UInt8.le_iff_toNat_le, UInt8.toNat_ofNat', UInt8.reduceToNat]
      omega
    · simp only [UInt8.le_iff_toNat_le, UInt8.toNat_ofNat', UInt8.reduceToNat]
      omega
    · simp only [isContinuation, decide_eq_true_eq, UInt8.le_iff_toNat_le, UInt8.toNat_ofNat',
        UInt8.reduceToNat]
      omega
  · refine (isXMLText_three ?_ ?_ s).trans ?_
    · simp only [UInt8.le_iff_toNat_le, UInt8.toNat_ofNat', UInt8.reduceToNat]
      omega
    · simp only [UInt8.le_iff_toNat_le, UInt8.toNat_ofNat', UInt8.reduceToNat]
      omega
    · refine (congrArg (· && isXMLText s) (decide_eq_true ?_)).trans (Bool.true_and _)
      simp only [isContinuation, decide_eq_true_eq, UInt8.le_iff_toNat_le, ← UInt8.toNat_inj,
        UInt8.toNat_ofNat', UInt8.reduceToNat]
      omega
  · refine (isXMLText_four ?_ s).trans ?_
    · simp only [UInt8.le_iff_toNat_le, UInt8.toNat_ofNat', UInt8.reduceToNat]
      omega
    · refine (congrArg (· && isXMLText s) (decide_eq_true ?_)).trans (Bool.true_and _)
      simp only [isContinuation, decide_eq_true_eq, UInt8.le_iff_toNat_le, ← UInt8.toNat_inj,
        UInt8.toNat_ofNat', UInt8.reduceToNat]
      omega

lemma ofNat_eq {n : ℕ} (h : n % 256 = c.toNat) : UInt8.ofNat n = c := by
  rw [← UInt8.toNat_inj, UInt8.toNat_ofNat', h]

lemma exists_char {n : ℕ} (hn : n < 0xD800 ∨ 0xDFFF < n ∧ n < 0x110000) :
    ∃ a : Char, a.val.toNat = n := ⟨Char.ofNatAux n hn, rfl⟩

lemma IsCharacterData.cons {a : Char} (ha : isXMLChar a = true) (hs : IsCharacterData s)
    (hw : String.utf8EncodeChar a = w) : IsCharacterData (w ++ s) := by
  obtain ⟨cs, rfl, hcs⟩ := hs
  exact ⟨a :: cs, by rw [List.flatMap_cons, hw], List.forall_mem_cons.2 ⟨ha, hcs⟩⟩

/-! A sequence that passes the tests is the encoding of a character of XML. -/

lemma exists_encode_one (hc : isXMLAscii c = true) :
    ∃ a, isXMLChar a = true ∧ String.utf8EncodeChar a = [c] := by
  simp only [isXMLAscii, decide_eq_true_eq, UInt8.le_iff_toNat_le, ← UInt8.toNat_inj,
    UInt8.reduceToNat] at hc
  obtain ⟨a, ha⟩ := exists_char (n := c.toNat) (by omega)
  refine ⟨a, (isXMLChar_iff a).2 (by omega), ?_⟩
  rw [String.utf8EncodeChar.eq_def]
  dsimp only
  rw [ha, if_pos (by omega), UInt8.ofNat_toNat]

lemma exists_encode_two (hcd : isTwoByteChar c d = true) :
    ∃ a, isXMLChar a = true ∧ String.utf8EncodeChar a = [c, d] := by
  simp only [isTwoByteChar, isContinuation, decide_eq_true_eq, UInt8.le_iff_toNat_le,
    UInt8.reduceToNat] at hcd
  obtain ⟨a, ha⟩ := exists_char (n := (c.toNat - 192) * 64 + (d.toNat - 128)) (by omega)
  refine ⟨a, (isXMLChar_iff a).2 (by omega), ?_⟩
  rw [String.utf8EncodeChar.eq_def]
  dsimp only
  rw [ha, if_neg (by omega), if_pos (by omega)]
  rw [ofNat_eq (c := c), ofNat_eq (c := d)]
  · omega
  · omega

lemma exists_encode_three (hcde : isThreeByteChar c d e = true) :
    ∃ a, isXMLChar a = true ∧ String.utf8EncodeChar a = [c, d, e] := by
  simp only [isThreeByteChar, isContinuation, decide_eq_true_eq, UInt8.le_iff_toNat_le,
    ← UInt8.toNat_inj, UInt8.reduceToNat] at hcde
  obtain ⟨a, ha⟩ := exists_char
    (n := (c.toNat - 224) * 4096 + (d.toNat - 128) * 64 + (e.toNat - 128)) (by omega)
  refine ⟨a, (isXMLChar_iff a).2 (by omega), ?_⟩
  rw [String.utf8EncodeChar.eq_def]
  dsimp only
  rw [ha, if_neg (by omega), if_neg (by omega), if_pos (by omega)]
  rw [ofNat_eq (c := c), ofNat_eq (c := d), ofNat_eq (c := e)]
  · omega
  · omega
  · omega

lemma exists_encode_four (hfour : isFourByteChar c d e f = true) :
    ∃ a, isXMLChar a = true ∧ String.utf8EncodeChar a = [c, d, e, f] := by
  simp only [isFourByteChar, isContinuation, decide_eq_true_eq, UInt8.le_iff_toNat_le,
    ← UInt8.toNat_inj, UInt8.reduceToNat] at hfour
  obtain ⟨a, ha⟩ := exists_char (n := (c.toNat - 240) * 262144 + (d.toNat - 128) * 4096 +
    (e.toNat - 128) * 64 + (f.toNat - 128)) (by omega)
  refine ⟨a, (isXMLChar_iff a).2 (by omega), ?_⟩
  rw [String.utf8EncodeChar.eq_def]
  dsimp only
  rw [ha, if_neg (by omega), if_neg (by omega), if_neg (by omega)]
  rw [ofNat_eq (c := c), ofNat_eq (c := d), ofNat_eq (c := e), ofNat_eq (c := f)]
  · omega
  · omega
  · omega
  · omega

lemma isXMLText_iff : isXMLText s = true ↔ IsCharacterData s := by
  constructor
  · intro h
    fun_induction isXMLText s with
    | case1 => exact ⟨[], rfl, fun c hc => absurd hc List.not_mem_nil⟩
    | case2 c s hc ih =>
      obtain ⟨a, ha, hone⟩ := exists_encode_one hc
      exact (ih h).cons ha hone
    | case3 => simp at h
    | case4 c hc d s hcd ih =>
      obtain ⟨a, ha, htwo⟩ := exists_encode_two hcd
      exact (ih h).cons ha htwo
    | case5 => simp at h
    | case6 c hc d hcd e s hcde ih =>
      obtain ⟨a, ha, hthree⟩ := exists_encode_three hcde
      exact (ih h).cons ha hthree
    | case7 => simp at h
    | case8 c hc d hcd e hcde f s ih =>
      obtain ⟨hchar, hs⟩ := Bool.and_eq_true_iff.1 h
      obtain ⟨a, ha, hfour⟩ := exists_encode_four hchar
      exact (ih hs).cons ha hfour
  · rintro ⟨cs, rfl, hcs⟩
    induction cs with
    | nil => rfl
    | cons a cs ih =>
      obtain ⟨ha, hcs⟩ := List.forall_mem_cons.1 hcs
      rw [List.flatMap_cons, isXMLText_encode ha]
      exact ih hcs

/-- What a turn writes is text if what it has read is not forbidden. -/
lemma Turn.isXMLText_iff {out t : Bytes} (h : Turn c s out t)
    (ht : isXMLText w = true ↔ IsStrict t) : isXMLText (out ++ w) = true ↔ IsStrict (c :: s) := by
  cases h with
  | ascii _ hc =>
    have hlead : ¬ (224 ≤ c ∧ c ≤ 244) := fun h =>
      not_isXMLAscii (UInt8.le_trans (by decide) h.1) hc
    rw [isXMLText_xmlEscape hc, isStrict_cons_of_not hlead, ht]
  | two d t hlow hhigh hd =>
    have hlead : ¬ (224 ≤ c ∧ c ≤ 244) := fun h => absurd (UInt8.le_trans h.1 hhigh) (by decide)
    rw [isStrict_cons_of_not hlead, isStrict_cons_of_not (not_lead_of_isContinuation hd), ← ht]
    exact Bool.eq_iff_iff.1 (isXMLText_two hlow hhigh hd w)
  | three d e t hlow hhigh hd he =>
    rw [isStrict_three hlow hhigh hd he, ← ht, ← Bool.and_eq_true_iff]
    exact Bool.eq_iff_iff.1 (isXMLText_three hlow hhigh w)
  | four d e f t hlow hhigh hd he hf =>
    rw [isStrict_four hlow hhigh hd he hf, ← ht, ← Bool.and_eq_true_iff]
    exact Bool.eq_iff_iff.1 (isXMLText_four hlow w)
  | broken _ hw =>
    rw [isStrict_cons, and_iff_right hw, ← ht]
    have hchar : isXMLText (replacementChar ++ w) = isXMLText w := by
      rw [replacementChar]
      exact isXMLText_three (by decide) (by decide) w
    rw [hchar]

lemma isEscaped_xmlEncode (s : Bytes) : IsEscaped (xmlEncode s) := by
  induction h : s.length using Nat.strong_induction_on generalizing s with
  | _ n ih =>
    cases s with
    | nil => exact isEscaped_nil
    | cons c s =>
      obtain ⟨out, t, hturn, heq⟩ := exists_turn c s
      have hlength := hturn.length_le
      rw [heq]
      exact hturn.isEscaped (ih t.length (by simp at h; omega) t rfl)

lemma isXMLText_xmlEncode_iff (s : Bytes) : isXMLText (xmlEncode s) = true ↔ IsStrict s := by
  induction h : s.length using Nat.strong_induction_on generalizing s with
  | _ n ih =>
    cases s with
    | nil => exact iff_of_true rfl isStrict_nil
    | cons c s =>
      obtain ⟨out, t, hturn, heq⟩ := exists_turn c s
      have hlength := hturn.length_le
      rw [heq]
      exact hturn.isXMLText_iff (ih t.length (by simp at h; omega) t rfl)

/-- What `xml_encode` gives is character data with all markup escaped, from which character data is
given back, if and only if no forbidden sequence is in what it gets. -/
theorem xmlEncode_wellFormed_iff (s : Bytes) :
    (IsCharacterData (xmlEncode s) ∧ IsEscaped (xmlEncode s) ∧
      (IsCharacterData s → xmlUnescape 0 (xmlEncode s) = s)) ↔
    ∀ w, w <:+: s → isForbidden w = false := by
  rw [← isXMLText_iff, ← isXMLText_iff]
  constructor
  · intro h
    exact (isXMLText_xmlEncode_iff s).1 h.1
  · intro h
    exact ⟨(isXMLText_xmlEncode_iff s).2 h, isEscaped_xmlEncode s, xmlUnescape_xmlEncode⟩

/-- A surrogate is copied. -/
theorem not_xmlEncode_wellFormed : ¬ ∀ s : Bytes,
    IsCharacterData (xmlEncode s) ∧ IsEscaped (xmlEncode s) ∧
      (IsCharacterData s → xmlUnescape 0 (xmlEncode s) = s) := by
  intro hall
  exact absurd (isXMLText_iff.2 (hall [237, 160, 128]).1) (by decide)

end PionCore.Platform
