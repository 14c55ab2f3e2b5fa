/-
# Text in XML

A document may have the characters of XML only, in UTF-8.  In the text of a document some
characters are written as entities.
-/
import PionCore.Lib.Ascii

namespace PionCore.Lib

/-- A byte of ASCII that is a character of XML. -/
def isXMLAscii (c : Byte) : Bool := 32 ≤ c ∧ c ≤ 127 ∨ c = 9 ∨ c = 10 ∨ c = 13

/-- A byte behind the first one of a character. -/
def isContinuation (c : Byte) : Bool := 128 ≤ c ∧ c ≤ 191

def isTwoByteChar (c d : Byte) : Bool := 194 ≤ c ∧ c ≤ 223 ∧ isContinuation d

/-- Neither an overlong form, nor a surrogate, nor one of the last two code points of the plane. -/
def isThreeByteChar (c d e : Byte) : Bool :=
  224 ≤ c ∧ c ≤ 239 ∧ isContinuation d ∧ isContinuation e ∧ (c = 224 → 160 ≤ d) ∧
    (c = 237 → d ≤ 159) ∧ ¬ (c = 239 ∧ d = 191 ∧ 190 ≤ e)

/-- Neither an overlong form, nor a code point above the last one. -/
def isFourByteChar (c d e f : Byte) : Bool :=
  240 ≤ c ∧ c ≤ 244 ∧ isContinuation d ∧ isContinuation e ∧ isContinuation f ∧
    (c = 240 → 144 ≤ d) ∧ (c = 244 → d ≤ 143)

/-- Text that a document may have. -/
def isXMLText : Bytes → Bool
  | [] => true
  | c :: s =>
    if isXMLAscii c then isXMLText s
    else
      match s with
      | [] => false
      | d :: s =>
        if isTwoByteChar c d then isXMLText s
        else
          match s with
          | [] => false
          | e :: s =>
            if isThreeByteChar c d e then isXMLText s
            else
              match s with
              | [] => false
              | f :: s => isFourByteChar c d e f && isXMLText s

/-- The entities for characters. -/
def xmlEntities : List (Bytes × Byte) :=
  [(ascii "&amp;", 38), (ascii "&lt;", 60), (ascii "&gt;", 62), (ascii "&quot;", 34),
    (ascii "&apos;", 39)]

/-- The entity at the front of a text. -/
def xmlEntityAt (s : Bytes) : Option (Bytes × Byte) := xmlEntities.find? fun e => e.1.isPrefixOf s

/-- The text with characters in the place of entities; the bytes to skip are those of an entity
whose character has been given. -/
def xmlUnescape : ℕ → Bytes → Bytes
  | _, [] => []
  | n + 1, _ :: s => xmlUnescape n s
  | 0, c :: s =>
    match xmlEntityAt (c :: s) with
    | some e => e.2 :: xmlUnescape (e.1.length - 1) s
    | none => c :: xmlUnescape 0 s

/-- A character that is not the start of an entity stays. -/
lemma xmlUnescape_cons {c : Byte} (hc : c ≠ 38) (s : Bytes) :
    xmlUnescape 0 (c :: s) = c :: xmlUnescape 0 s := by
  have hnone : xmlEntityAt (c :: s) = none := by
    rw [xmlEntityAt, List.find?_eq_none]
    intro e he
    have hhead : ∀ e ∈ xmlEntities, e.1.head? = some 38 := by decide
    obtain ⟨w, hw⟩ : ∃ w, e.1 = 38 :: w := by
      cases h : e.1 with
      | nil => exact absurd (hhead e he) (by simp [h])
      | cons b w => exact ⟨w, by simpa [h] using hhead e he⟩
    rw [hw, List.isPrefixOf]
    simp [Ne.symm hc]
  rw [xmlUnescape, hnone]

lemma xmlUnescape_skip (w s : Bytes) : xmlUnescape w.length (w ++ s) = xmlUnescape 0 s := by
  induction w with
  | nil => rfl
  | cons c w ih => exact ih

/-- An entity becomes its character. -/
lemma xmlUnescape_entity {e : Bytes × Byte} (he : e ∈ xmlEntities) (s : Bytes) :
    xmlUnescape 0 (e.1 ++ s) = e.2 :: xmlUnescape 0 s := by
  have hfind : xmlEntityAt (e.1 ++ s) = some e := by
    simp only [xmlEntities, List.mem_cons, List.not_mem_nil, or_false] at he
    rcases he with rfl | rfl | rfl | rfl | rfl <;> rfl
  obtain ⟨c, w, hw⟩ : ∃ c w, e.1 = c :: w := by
    have hne : ∀ e ∈ xmlEntities, e.1 ≠ [] := by decide
    exact List.exists_cons_of_ne_nil (hne e he)
  rw [hw, List.cons_append] at hfind ⊢
  rw [xmlUnescape, hfind]
  dsimp only
  rw [hw, List.length_cons, Nat.add_sub_cancel, xmlUnescape_skip]

/-- Text in ASCII. -/
lemma isXMLText_of_ascii {s : Bytes} (h : ∀ c ∈ s, isXMLAscii c = true) : isXMLText s = true := by
  induction s with
  | nil => rfl
  | cons c s ih =>
    rw [isXMLText.eq_def]
    dsimp only
    rw [if_pos (h c List.mem_cons_self)]
    exact ih fun d hd => h d (List.mem_cons_of_mem _ hd)

/-- No character of XML has a zero byte. -/
lemma ne_zero_of_isXMLText {s : Bytes} (h : isXMLText s = true) : ∀ c ∈ s, c ≠ 0 := by
  fun_induction isXMLText s with
  | case1 => simp
  | case2 c s hc ih =>
    intro b hb
    rcases List.mem_cons.1 hb with rfl | hb
    · rintro rfl
      exact absurd hc (by decide)
    · exact ih h b hb
  | case3 => simp at h
  | case4 c d s hc hcd ih =>
    intro b hb
    simp only [isTwoByteChar, isContinuation, decide_eq_true_eq] at hcd
    simp only [List.mem_cons] at hb
    rcases hb with rfl | rfl | hb
    · rintro rfl
      simp at hcd
    · rintro rfl
      simp at hcd
    · exact ih h b hb
  | case5 => simp at h
  | case6 c d e s hc hcd hcde ih =>
    intro b hb
    simp only [isThreeByteChar, isContinuation, decide_eq_true_eq] at hcde
    simp only [List.mem_cons] at hb
    rcases hb with rfl | rfl | rfl | hb
    · rintro rfl
      simp at hcde
    · rintro rfl
      simp at hcde
    · rintro rfl
      simp at hcde
    · exact ih h b hb
  | case7 => simp at h
  | case8 c d e f s hc hcd hcde ih =>
    obtain ⟨hfour, hs⟩ := Bool.and_eq_true_iff.1 h
    intro b hb
    simp only [isFourByteChar, isContinuation, decide_eq_true_eq] at hfour
    simp only [List.mem_cons] at hb
    rcases hb with rfl | rfl | rfl | rfl | hb
    · rintro rfl
      simp at hfour
    · rintro rfl
      simp at hfour
    · rintro rfl
      simp at hfour
    · rintro rfl
      simp at hfour
    · exact ih hs b hb

end PionCore.Lib
