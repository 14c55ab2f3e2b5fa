/-
# Reading from a text stream

`getline` with a delimiter, and the words and the numbers that `operator>>` reads.
-/
import PionCore.Lib.Ascii

namespace PionCore.Lib

variable {d : Byte} {s t : Bytes} {n : ℕ}

/-! ### Lines -/

/-- `getline`: the text in front of the delimiter, and the stream behind it, unless the end of the
stream comes first. -/
def getline (d : Byte) : Bytes → Bytes × Option Bytes
  | [] => ([], none)
  | c :: s => if c = d then ([], some s) else ((getline d s).map (c :: ·) id)

lemma getline_append (ht : d ∉ t) (s : Bytes) : getline d (t ++ d :: s) = (t, some s) := by
  induction t with
  | nil => simp [getline]
  | cons c t ih =>
    obtain ⟨hc, ht⟩ := not_or.1 (mt List.mem_cons.2 ht)
    rw [List.cons_append, getline, if_neg (Ne.symm hc), ih ht]
    rfl

lemma getline_of_notMem (ht : d ∉ t) : getline d t = (t, none) := by
  induction t with
  | nil => rfl
  | cons c t ih =>
    obtain ⟨hc, ht⟩ := not_or.1 (mt List.mem_cons.2 ht)
    rw [getline, if_neg (Ne.symm hc), ih ht]
    rfl

/-! ### Words -/

/-- The words that `operator>>` reads up to the end of the stream. -/
def words (s : Bytes) : List Bytes := (s.splitOnP isSpace).filter (· ≠ [])

/-- Texts, each with an end of line. -/
def lines (ts : List Bytes) : Bytes := ts.flatMap (· ++ [10])

lemma lines_append (ts us : List Bytes) : lines (ts ++ us) = lines ts ++ lines us := by
  simp [lines]

/-- Lines without white space are read as the words they are, but for those that are empty. -/
lemma words_lines {ts : List Bytes} (h : ∀ t ∈ ts, ∀ c ∈ t, isSpace c = false) :
    words (lines ts) = ts.filter (· ≠ []) := by
  induction ts with
  | nil => rfl
  | cons t ts ih =>
    have ht : ∀ c ∈ t, isSpace c = false := h t (by simp)
    have hsplit : (lines (t :: ts)).splitOnP isSpace = t :: (lines ts).splitOnP isSpace := by
      have heq : lines (t :: ts) = t ++ 10 :: lines ts := by simp [lines]
      rw [heq]
      exact List.splitOnP_append_cons_of_forall_mem ht 10 (by decide) _
    rw [words, hsplit, List.filter_cons, List.filter_cons]
    rw [words] at ih
    rw [ih fun u hu => h u (List.mem_cons_of_mem _ hu)]

lemma isSpace_of_mem_splitOnP {t : Bytes} (ht : t ∈ s.splitOnP isSpace) :
    ∀ c ∈ t, isSpace c = false := by
  induction s generalizing t with
  | nil =>
    rw [List.splitOnP_nil, List.mem_singleton] at ht
    rw [ht]
    exact fun c hc => absurd hc List.not_mem_nil
  | cons b s ih =>
    rw [List.splitOnP_cons_eq_if_modifyHead] at ht
    split_ifs at ht with hb
    · rcases List.mem_cons.1 ht with rfl | ht
      · exact fun c hc => absurd hc List.not_mem_nil
      · exact ih ht
    · obtain ⟨u, us, hu⟩ := List.exists_cons_of_ne_nil (List.splitOnP_ne_nil isSpace s)
      rw [hu, List.modifyHead_cons] at ht
      rcases List.mem_cons.1 ht with rfl | ht
      · refine List.forall_mem_cons.2 ⟨eq_false_of_ne_true hb, ih (hu ▸ List.mem_cons_self)⟩
      · exact ih (hu ▸ List.mem_cons_of_mem u ht)

/-- A word is not empty and has no white space. -/
def IsWord (t : Bytes) : Prop := t ≠ [] ∧ ∀ c ∈ t, isSpace c = false

lemma isWord_of_mem_words {t : Bytes} (ht : t ∈ words s) : IsWord t := by
  obtain ⟨hsplit, hne⟩ := List.mem_filter.1 ht
  exact ⟨of_decide_eq_true hne, isSpace_of_mem_splitOnP hsplit⟩

lemma IsWord.words_eq {t : Bytes} (ht : IsWord t) : words t = [t] := by
  rw [words, List.splitOnP_eq_singleton ht.2, List.filter_singleton, decide_eq_true ht.1, cond_true]

@[simp] lemma words_nil : words [] = [] := rfl

lemma words_append_cons (s : Bytes) {c : Byte} (hc : isSpace c = true) (t : Bytes) :
    words (s ++ c :: t) = words s ++ words t := by
  rw [words, List.splitOnP_append_cons s t hc, List.filter_append]
  rfl

/-- The words of lines, which need not be words themselves. -/
lemma words_lines_eq_flatMap (ts : List Bytes) : words (lines ts) = ts.flatMap words := by
  induction ts with
  | nil => rfl
  | cons t ts ih =>
    have heq : lines (t :: ts) = t ++ 10 :: lines ts := by simp [lines]
    rw [heq, words_append_cons t (by decide), ih, List.flatMap_cons]

/-! ### Numbers -/

/-- A number that `operator>>` reads, and the stream behind it. -/
def readNumber (s : Bytes) : ℕ × Bytes :=
  let t := s.dropWhile isSpace
  (readNumeral 10 (t.takeWhile isDigit), t.dropWhile isDigit)

lemma readNumber_numeral (n : ℕ) {c : Byte} (hc : isDigit c = false) (s : Bytes) :
    readNumber (numeral 10 n ++ c :: s) = (n, c :: s) := by
  have hdigits : ∀ x ∈ numeral 10 n, isDigit x = true := fun x hx => isDigit_of_mem_numeral hx
  have hdrop : (numeral 10 n ++ c :: s).dropWhile isSpace = numeral 10 n ++ c :: s := by
    obtain ⟨x, xs, hx⟩ := List.exists_cons_of_ne_nil (numeral_ne_nil 10 n)
    have hspace := isSpace_of_isDigit (hdigits x (by simp [hx]))
    rw [hx, List.cons_append, List.dropWhile_cons_of_neg (by simp [hspace])]
  rw [readNumber, hdrop, List.takeWhile_append_of_pos hdigits, List.dropWhile_append_of_pos hdigits,
    List.takeWhile_cons_of_neg (by simp [hc]), List.dropWhile_cons_of_neg (by simp [hc]),
    List.append_nil, readNumeral_numeral (by omega) (by omega)]

end PionCore.Lib
