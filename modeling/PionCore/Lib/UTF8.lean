/-
# UTF-8

A text is valid if it is the encoding of some characters.
-/
import PionCore.Lib.Ascii

namespace PionCore.Lib

/-- The text is the encoding of some characters. -/
def ValidUTF8 (s : Bytes) : Prop := ∃ cs : List Char, s = cs.flatMap String.utf8EncodeChar

namespace ValidUTF8

variable {s t : Bytes}

lemma nil : ValidUTF8 [] := ⟨[], rfl⟩

lemma append (hs : ValidUTF8 s) (ht : ValidUTF8 t) : ValidUTF8 (s ++ t) := by
  obtain ⟨cs, rfl⟩ := hs
  obtain ⟨ds, rfl⟩ := ht
  exact ⟨cs ++ ds, List.flatMap_append.symm⟩

lemma utf8EncodeChar_ofNat {b : Byte} (h : b < 128) :
    String.utf8EncodeChar (Char.ofNat b.toNat) = [b] := by
  have hall : ∀ n < 128, String.utf8EncodeChar (Char.ofNat n) = [UInt8.ofNat n] := by
    decide +kernel
  rw [hall b.toNat h, UInt8.ofNat_toNat]

/-- Characters below 128 are their own encodings. -/
lemma of_ascii (h : ∀ b ∈ s, b < 128) : ValidUTF8 s := by
  induction s with
  | nil => exact nil
  | cons b s ih =>
    obtain ⟨cs, hcs⟩ := ih fun c hc => h c (List.mem_cons_of_mem _ hc)
    refine ⟨Char.ofNat b.toNat :: cs, ?_⟩
    rw [List.flatMap_cons, utf8EncodeChar_ofNat (h b List.mem_cons_self), ← hcs]
    rfl

lemma numeral (n : ℕ) : ValidUTF8 (numeral 10 n) := by
  refine of_ascii fun b hb => ?_
  have hdigit := isDigit_of_mem_numeral hb
  simp only [isDigit, decide_eq_true_eq, UInt8.le_iff_toNat_le] at hdigit
  change b.toNat < 128
  exact Nat.lt_of_le_of_lt hdigit.2 (by decide)

lemma ne_of_mem_utf8EncodeChar {c : Char} {b : Byte} (h : b ∈ String.utf8EncodeChar c) :
    b ≠ 255 := by
  rw [String.utf8EncodeChar.eq_def] at h
  dsimp only at h
  generalize c.val.toNat = v at h
  rintro rfl
  split_ifs at h <;>
    simp [← UInt8.toNat_inj] at h <;> omega

/-- No encoding has a byte of ones only, which is the end of file as a character. -/
lemma ne_of_mem (h : ValidUTF8 s) {b : Byte} (hb : b ∈ s) : b ≠ 255 := by
  obtain ⟨cs, rfl⟩ := h
  obtain ⟨c, -, hc⟩ := List.mem_flatMap.1 hb
  exact ne_of_mem_utf8EncodeChar hc

end ValidUTF8

end PionCore.Lib
