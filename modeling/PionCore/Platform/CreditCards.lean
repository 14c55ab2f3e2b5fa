/-
# Credit card numbers

`HideCreditCardNumbers` searches the values of an event for numbers of credit cards and writes `X`
over them.  The values are blobs, which may share their memory with one another.
-/
import PionCore.Lib.Ascii
import PionCore.Lib.WordSearch
import Mathlib.Logic.Function.Basic

namespace PionCore.Platform

open PionCore.Lib

/-! ### The expression -/

/-- `\w` -/
def isWordChar (c : Byte) : Bool := isDigit c ∨ 65 ≤ c ∧ c ≤ 90 ∨ 97 ≤ c ∧ c ≤ 122 ∨ c = 95

/-- `[\s+-]` -/
def isCardSeparator (c : Byte) : Bool := isSpace c ∨ c = 43 ∨ c = 45

namespace CreditCard

open Regex

/-- `\d` -/
def digit : Regex Byte := .letter isDigit

def char (c : Byte) : Regex Byte := .letter (· == c)

/-- `[a-b]` -/
def range (a b : Byte) : Regex Byte := .letter fun c => a ≤ c ∧ c ≤ b

/-- `(?:[\s+-]?\d){n}` -/
def digits (n : ℕ) : Regex Byte := .rep (.cat (.rep (.letter isCardSeparator) 0 1) digit) n n

/-- `4(?:[\s+-]?\d){15}` -/
def visa : Regex Byte := .cat (char 52) (digits 15)

/-- `5[1-5](?:[\s+-]?\d){14}` -/
def masterCard : Regex Byte := .cat (.cat (char 53) (range 49 53)) (digits 14)

/-- `(?:34|37)(?:[\s+-]?\d){13}` -/
def amex : Regex Byte :=
  .cat (.alt (.cat (char 51) (char 52)) (.cat (char 51) (char 55))) (digits 13)

/-- `(?:6011|65\d\d)(?:[\s+-]?\d){12}` -/
def discover : Regex Byte :=
  .cat (.alt (.cat (char 54) (.cat (char 48) (.cat (char 49) (char 49))))
    (.cat (char 54) (.cat (char 53) (.cat digit digit)))) (digits 12)

/-- `(?:30[0-5]|36\d|38\d)(?:[\s+-]?\d){11}` -/
def diners : Regex Byte :=
  .cat (.alt (.cat (char 51) (.cat (char 48) (range 48 53)))
    (.alt (.cat (char 51) (.cat (char 54) digit)) (.cat (char 51) (.cat (char 56) digit))))
    (digits 11)

/-- `35(?:[\s+-]?\d){14}` -/
def jcb : Regex Byte := .cat (.cat (char 51) (char 53)) (digits 14)

/-- `FIND_CC_NUMBER_RX` without the word boundaries at its two ends. -/
def number : Regex Byte :=
  .alt visa (.alt masterCard (.alt amex (.alt discover (.alt diners jcb))))

/-- An `X`. -/
def mark : Byte := 88

/-- `HideCreditCardNumbers`, for a sequence of characters.  A turn of its loop takes a character at
least. -/
def hide (s : Bytes) : Bytes × Bool := maskWhole number mark isWordChar s.length s

end CreditCard

/-! ### Events -/

/-- A value of an event: a blob, with the address of its memory, or something else. -/
inductive SharedValue (α : Type*) where
  | blob (address : ℕ)
  | other (v : α)

/-- The body of the loop over the values. -/
def hideValue {α : Type*} (s : (ℕ → Bytes) × Bool) (it : ℕ × SharedValue α) :
    (ℕ → Bytes) × Bool :=
  match it.2 with
  | .blob address =>
      let hidden := CreditCard.hide (s.1 address)
      (Function.update s.1 address hidden.1, s.2 || hidden.2)
  | .other _ => s

/-- `HideCreditCardNumbers`, for an event: the memory of the blobs, and whether there was a
match. -/
def hideCreditCardNumbers {α : Type*} (memory : ℕ → Bytes) (e : List (ℕ × SharedValue α)) :
    (ℕ → Bytes) × Bool :=
  e.foldl hideValue (memory, false)

namespace CreditCard

open Regex

/-! ### Words of the expression -/

lemma isWordChar_of_isDigit {c : Byte} (h : isDigit c = true) : isWordChar c = true := by
  rw [isWordChar, h]
  exact decide_eq_true (Or.inl rfl)

lemma begins_char {c : Byte} (h : isDigit c = true) : (char c).Begins isWordChar := by
  refine begins_letter fun d hd => ?_
  rw [beq_iff_eq.1 hd]
  exact isWordChar_of_isDigit h

/-- A number begins with one of the digits from 3 to 6. -/
lemma begins_number : number.Begins isWordChar := by
  have h3 : (char 51).Begins isWordChar := begins_char (by decide)
  have h4 : (char 52).Begins isWordChar := begins_char (by decide)
  have h5 : (char 53).Begins isWordChar := begins_char (by decide)
  have h6 : (char 54).Begins isWordChar := begins_char (by decide)
  refine Begins.alt (h4.cat _) (Begins.alt ((h5.cat _).cat _) (Begins.alt ?_ (Begins.alt ?_
    (Begins.alt ?_ ((h3.cat _).cat _)))))
  · exact (Begins.alt (h3.cat _) (h3.cat _)).cat _
  · exact (Begins.alt (h6.cat _) (h6.cat _)).cat _
  · exact (Begins.alt (h3.cat _) (Begins.alt (h3.cat _) (h3.cat _))).cat _

lemma ends_digits {n : ℕ} (hn : 0 < n) : (digits n).Ends isWordChar :=
  Ends.rep (Ends.cat _ (ends_letter fun _ hc => isWordChar_of_isDigit hc)) hn

lemma ends_number : number.Ends isWordChar := by
  have hdigits : ∀ (r : Regex Byte) (n : ℕ), 0 < n → (cat r (digits n)).Ends isWordChar :=
    fun r n hn => Ends.cat r (ends_digits hn)
  refine Ends.alt (hdigits _ _ ?_) (Ends.alt (hdigits _ _ ?_) (Ends.alt (hdigits _ _ ?_)
    (Ends.alt (hdigits _ _ ?_) (Ends.alt (hdigits _ _ ?_) (hdigits _ _ ?_)))))
  all_goals decide

lemma maskable_number : Maskable number mark isWordChar :=
  ⟨by decide, begins_number, ends_number, by decide⟩

/-! ### One value -/

/-- A search of a text finds a number of a credit card. -/
def Found (s : Bytes) : Prop := number.searchWhole isWordChar none s ≠ none

lemma not_found_hide (s : Bytes) : ¬ Found (hide s).1 :=
  not_not_intro (searchWhole_maskWhole maskable_number (le_refl _) (Or.inl rfl))

lemma hide_snd (s : Bytes) : (hide s).2 = true ↔ Found s := by
  rw [hide, maskWhole_snd maskable_number (le_refl _), Option.isSome_iff_ne_none]
  exact Iff.rfl

/-- What was hidden stays as it is. -/
lemma hide_of_not_found {s : Bytes} (h : ¬ Found s) : hide s = (s, false) :=
  maskWhole_eq_self (not_not.1 h) s.length

/-! ### All values of an event -/

variable {α : Type*} {memory : ℕ → Bytes} {e : List (ℕ × SharedValue α)} {address : ℕ}

/-- The address is that of a value of the event. -/
def IsBlobOf (address : ℕ) (e : List (ℕ × SharedValue α)) : Prop :=
  ∃ it ∈ e, it.2 = .blob address

lemma isBlobOf_cons {it : ℕ × SharedValue α} :
    IsBlobOf address (it :: e) ↔ it.2 = .blob address ∨ IsBlobOf address e := by
  rw [IsBlobOf, List.exists_mem_cons_iff]
  exact Iff.rfl

/-! One turn of the loop, at the address of a blob and at another one. -/

lemma hideValue_self (s : (ℕ → Bytes) × Bool) (termRef a : ℕ) :
    (hideValue s (termRef, (.blob a : SharedValue α))).1 a = (hide (s.1 a)).1 :=
  Function.update_self ..

lemma hideValue_of_ne (s : (ℕ → Bytes) × Bool) (termRef : ℕ) {a : ℕ} (h : a ≠ address) :
    (hideValue s (termRef, (.blob a : SharedValue α))).1 address = s.1 address :=
  Function.update_of_ne (Ne.symm h) ..

lemma hideValue_snd (s : (ℕ → Bytes) × Bool) (termRef a : ℕ) :
    (hideValue s (termRef, (.blob a : SharedValue α))).2 = true ↔ s.2 = true ∨ Found (s.1 a) := by
  rw [← hide_snd]
  exact Bool.or_eq_true_iff

/-- The memory behind the loop, from any state of it.  Where two values share their memory it is
searched twice, and nothing is found any more. -/
lemma foldl_hideValue (s : (ℕ → Bytes) × Bool) (e : List (ℕ × SharedValue α)) :
    (∀ address, IsBlobOf address e → (e.foldl hideValue s).1 address = (hide (s.1 address)).1) ∧
      (∀ address, ¬ IsBlobOf address e → (e.foldl hideValue s).1 address = s.1 address) ∧
      ((e.foldl hideValue s).2 = true ↔
        s.2 = true ∨ ∃ address, IsBlobOf address e ∧ Found (s.1 address)) := by
  induction e generalizing s with
  | nil =>
    have hnone : ∀ address, ¬ IsBlobOf address ([] : List (ℕ × SharedValue α)) := by
      rintro address ⟨it, hit, -⟩
      exact List.not_mem_nil hit
    refine ⟨fun address h => absurd h (hnone address), fun _ _ => rfl, ?_⟩
    exact ⟨Or.inl, fun h => h.resolve_right fun ⟨address, h, _⟩ => hnone address h⟩
  | cons it e ih =>
    obtain ⟨hblob, hother, hflag⟩ := ih (hideValue s it)
    rw [List.foldl_cons]
    obtain ⟨termRef, value⟩ := it
    cases value with
    | other v =>
      have hcons : ∀ address, IsBlobOf address ((termRef, .other v) :: e) ↔ IsBlobOf address e :=
        fun address => isBlobOf_cons.trans (or_iff_right fun h => by cases h)
      simp only [hcons]
      exact ⟨hblob, hother, hflag⟩
    | blob a =>
      have hcons : ∀ address, IsBlobOf address ((termRef, .blob a) :: e) ↔
          a = address ∨ IsBlobOf address e := fun address =>
        isBlobOf_cons.trans (or_congr_left ⟨fun h => SharedValue.blob.inj h, congrArg _⟩)
      refine ⟨fun address h => ?_, fun address h => ?_, ?_⟩
      · by_cases ha : a = address
        · subst ha
          by_cases hlater : IsBlobOf a e
          · rw [hblob a hlater, hideValue_self, hide_of_not_found (not_found_hide _)]
          · rw [hother a hlater, hideValue_self]
        · have hlater := ((hcons address).1 h).resolve_left ha
          rw [hblob address hlater, hideValue_of_ne s termRef ha]
      · obtain ⟨ha, hlater⟩ := not_or.1 (mt (hcons address).2 h)
        rw [hother address hlater, hideValue_of_ne s termRef ha]
      · rw [hflag, hideValue_snd]
        constructor
        · rintro ((hs | hfound) | ⟨address, hlater, hfound⟩)
          · exact Or.inl hs
          · exact Or.inr ⟨a, (hcons a).2 (Or.inl rfl), hfound⟩
          · by_cases ha : a = address
            · subst ha
              rw [hideValue_self] at hfound
              exact absurd hfound (not_found_hide _)
            · rw [hideValue_of_ne s termRef ha] at hfound
              exact Or.inr ⟨address, (hcons address).2 (Or.inr hlater), hfound⟩
        · rintro (hs | ⟨address, h, hfound⟩)
          · exact Or.inl (Or.inl hs)
          · by_cases ha : a = address
            · subst ha
              exact Or.inl (Or.inr hfound)
            · refine Or.inr ⟨address, ((hcons address).1 h).resolve_left ha, ?_⟩
              rwa [hideValue_of_ne s termRef ha]

/-- In every value of an event a search finds no number of a credit card any more; only the bytes of
the matches were replaced, so that the length is the same; and the result says whether there was a
number in some value before. -/
theorem creditCardNumbers_hidden (memory : ℕ → Bytes) (e : List (ℕ × SharedValue α)) :
    (∀ address, IsBlobOf address e →
      let before := memory address
      let after := (hideCreditCardNumbers memory e).1 address
      let found := number.foundWhole isWordChar before.length before
      number.searchWhole isWordChar none after = none ∧ after.length = before.length ∧
        before = found.1.flatMap (fun p => p.1 ++ p.2) ++ found.2 ∧
        after = (found.1.flatMap fun p => p.1 ++ List.replicate p.2.length mark) ++ found.2 ∧
        ∀ p ∈ found.1, number.Matches p.2) ∧
    (∀ address, ¬ IsBlobOf address e →
      (hideCreditCardNumbers memory e).1 address = memory address) ∧
    ((hideCreditCardNumbers memory e).2 = true ↔
      ∃ address, IsBlobOf address e ∧
        number.searchWhole isWordChar none (memory address) ≠ none) := by
  obtain ⟨hblob, hother, hflag⟩ := foldl_hideValue (memory, false) e
  refine ⟨fun address h => ?_, hother, ?_⟩
  · dsimp only
    rw [hideCreditCardNumbers, hblob address h]
    obtain ⟨htext, hmarks, hall⟩ := maskWhole_eq number mark isWordChar
      (memory address).length (memory address)
    exact ⟨not_not.1 (not_found_hide _), length_maskWhole _ _, htext, hmarks, hall⟩
  · rw [hideCreditCardNumbers, hflag, or_iff_right Bool.false_ne_true]
    exact Iff.rfl

example : hide (ascii "4111-1111 11111111, 12") = (ascii "XXXXXXXXXXXXXXXXXX, 12", true) := by
  decide +kernel

end CreditCard

end PionCore.Platform
