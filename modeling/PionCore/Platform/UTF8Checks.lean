/-
# Checked texts

What `isValidUTF8` tells of a text: one that passes is valid when it has been trimmed, unless its
length has more than 32 bits; and of one that does not, the library makes another text, if it takes
no character for an ill-formed sequence.
-/
import PionCore.Platform.UTF8Blob

namespace PionCore.Platform.EventValidator

open PionCore.Lib

/-- No character begins where an ill-formed sequence does. -/
def ICU.KeepsCharacters (icu : ICU) : Prop :=
  ∀ s before t after, icu.pieces s = before ++ .ill t :: after →
    ∀ c, ¬ String.utf8EncodeChar c <+: t ++ after.flatMap Piece.bytes

variable {icu : ICU} {memory : ℕ → Bytes} {p b : Bytes} {i o n : ℕ}

/-- A valid text is valid as far as to the beginning of any character. -/
lemma validUTF8_take_of_not_trail (hp : ValidUTF8 p) (hi : i < p.length)
    (hlead : isTrail (p.getD i 0) = false) : ValidUTF8 (p.take i) := by
  obtain ⟨cs, rfl⟩ := hp
  induction cs generalizing i with
  | nil => exact absurd hi (Nat.not_lt_zero i)
  | cons c cs ih =>
    obtain ⟨l, hl⟩ : ∃ l, l = cs.flatMap String.utf8EncodeChar := ⟨_, rfl⟩
    rw [List.flatMap_cons, ← hl] at hi hlead ⊢
    rw [← hl] at ih
    have hchar : ValidUTF8 (String.utf8EncodeChar c) := ⟨[c], by simp⟩
    by_cases hlt : i < (String.utf8EncodeChar c).length
    · -- inside of a character there are trail bytes only
      rw [List.getD_append _ _ _ _ hlt] at hlead
      cases i with
      | zero => exact ValidUTF8.nil
      | succ k =>
        rcases encode_cases c with ⟨x, hx, -⟩ | ⟨x, t, hx, -, -, -, -, ht⟩
        · rw [hx] at hlt
          exact absurd hlt (by simp)
        · rw [hx] at hlt hlead
          have hk : k < t.length := by simpa using hlt
          rw [List.getD_cons_succ, List.getD_eq_getElem _ _ hk] at hlead
          exact absurd (hlead.symm.trans (ht _ (List.getElem_mem hk)).1) (by simp)
    · rw [not_lt] at hlt
      rw [List.length_append] at hi
      rw [List.getD_append_right _ _ _ _ hlt] at hlead
      rw [List.take_append, List.take_of_length_le hlt]
      exact hchar.append (ih (by omega) hlead)

lemma backUp_le (h : backUp p i = some o) : o ≤ i := by
  induction i with
  | zero =>
    rw [backUp] at h
    split_ifs at h
    cases h
    exact le_rfl
  | succ i ih =>
    rw [backUp] at h
    split_ifs at h
    · exact (ih h).trans (Nat.le_succ i)
    · cases h
      exact le_rfl

/-! ### What the check accepts -/

lemma isValidUTF8_le (h : isValidUTF8 icu p = some (some n)) : n ≤ p.length := by
  rw [isValidUTF8] at h
  split_ifs at h with hnil hneg
  · cases h
    exact Nat.zero_le _
  · have hlt : (toInt32 (p.length - 1)).toNat < p.length := by
      have hpos := List.length_pos_iff.2 hnil
      rw [not_lt] at hneg
      rw [toInt32_eq] at hneg ⊢
      split_ifs at hneg ⊢ <;> omega
    cases htrim : trimAt icu p (toInt32 (p.length - 1)).toNat with
    | none => rw [htrim] at h; cases h
    | some o =>
      rw [htrim] at h
      have hle := trimAt_le hlt htrim
      cases o with
      | zero =>
        cases h
        exact Nat.zero_le _
      | succ o =>
        obtain ⟨s, -, hs⟩ := Option.bind_eq_some_iff.1 h
        split_ifs at hs
        · cases hs
          exact hle
        · cases hs

/-- The cleansed text is in front of its buffer. -/
lemma take_cleanseUTF8 (h : cleanseUTF8 icu memory p = some b) :
    b.take (icu.cleanse ((source p p.length).getD [])).length =
      icu.cleanse ((source p p.length).getD []) := by
  obtain ⟨s, hs, h⟩ := Option.bind_eq_some_iff.1 h
  rw [hs, Option.getD_some]
  split_ifs at h
  · rw [← Option.some.inj h, List.take_left]
  · rw [← Option.some.inj h, List.take_left]

/-- Far from the end of a text only a character of ASCII is a place that the check accepts. -/
lemma trimAt_far (hfar : i + 4 < p.length) (h : trimAt icu p i = some o) : o = p.length := by
  rw [trimAt] at h
  split_ifs at h
  · exact (Option.some.inj h).symm
  · obtain ⟨j, hj, h⟩ := Option.bind_eq_some_iff.1 h
    have hle := backUp_le hj
    rw [if_pos (by omega)] at h
    cases h

lemma source_eq_some (hn : n ≤ 2 ^ 31) {s : Bytes} (h : source p n = some s) :
    n < 2 ^ 31 ∧ s = p.take n := by
  have hlt : n < 2 ^ 31 := by
    by_contra hge
    obtain rfl : n = 2 ^ 31 := le_antisymm hn (not_lt.1 hge)
    have hneg : toInt32 (2 ^ 31) < -1 := by decide
    rw [source, if_pos hneg] at h
    cases h
  rw [source_of_lt hlt] at h
  exact ⟨hlt, (Option.some.inj h).symm⟩

/-- A short text that passes the check is valid when it has been trimmed, -/
lemma ICU.Documented.isValidUTF8_short (h : icu.Documented) (hlen : p.length ≤ 2 ^ 31)
    (hvalid : isValidUTF8 icu p = some (some n)) :
    trimmed icu p = some n ∧ ValidUTF8 (p.take n) := by
  by_cases hne : p = []
  · subst hne
    cases hvalid
    exact ⟨rfl, ValidUTF8.nil⟩
  · have hle := isValidUTF8_le hvalid
    rw [isValidUTF8_eq hne hlen] at hvalid
    rcases htrim : trimmed icu p with _ | _ | o
    · rw [htrim] at hvalid; cases hvalid
    · rw [htrim] at hvalid; cases hvalid; exact ⟨rfl, ValidUTF8.nil⟩
    · rw [htrim] at hvalid
      obtain ⟨s, hs, hvalid⟩ := Option.bind_eq_some_iff.1 hvalid
      split_ifs at hvalid with hnil hacc
      · cases hvalid
        rw [(source_eq_some (hle.trans hlen) hs).2] at hacc
        exact ⟨rfl, h.accepts_iff.1 hacc⟩
      · cases hvalid

/-- and one that does not is not. -/
lemma ICU.Documented.replaced_of_eq_none (h : icu.Documented) (hlen : p.length ≤ 2 ^ 31)
    (hvalid : isValidUTF8 icu p = some none) : Replaced icu p := by
  by_contra hnot
  obtain ⟨o, htrim, ho, hle⟩ := trimmed_of_not_replaced hnot
  by_cases hne : p = []
  · subst hne
    cases hvalid
  · rw [isValidUTF8_eq hne hlen, htrim] at hvalid
    cases o with
    | zero => cases hvalid
    | succ o =>
      obtain ⟨s, hs, hvalid⟩ := Option.bind_eq_some_iff.1 hvalid
      rw [(source_eq_some (hle.trans hlen) hs).2, h.accepts_iff.2 ho, if_pos rfl] at hvalid
      split_ifs at hvalid
      cases hvalid

/-- A longer text that passes the check is left as it is. -/
lemma isValidUTF8_far (hlen : 2 ^ 31 < p.length) {valid : Option ℕ}
    (hvalid : isValidUTF8 icu p = some valid) :
    2 ^ 32 < p.length ∧ (valid = none ∨ valid = some p.length) := by
  have hne : p ≠ [] := List.ne_nil_of_length_pos (by omega)
  have hint : 0 ≤ toInt32 (p.length - 1) := by
    by_contra hneg
    rw [isValidUTF8, if_neg hne, if_pos (not_le.1 hneg)] at hvalid
    cases hvalid
  obtain ⟨-, hlow, hlong⟩ := long_length hlen hint
  refine ⟨by omega, ?_⟩
  rw [isValidUTF8_long icu hlen hint] at hvalid
  rcases htrim : trimAt icu p ((p.length - 1) % 2 ^ 32) with _ | o
  · rw [htrim] at hvalid
    cases hvalid
    exact Or.inl rfl
  · obtain rfl := trimAt_far (by omega) htrim
    obtain ⟨n, hn⟩ : ∃ n, p.length = n + 1 := Nat.exists_eq_succ_of_ne_zero (by omega)
    rw [htrim, hn] at hvalid
    obtain ⟨s, -, hvalid⟩ := Option.bind_eq_some_iff.1 hvalid
    rw [hn]
    split_ifs at hvalid
    · exact Or.inr (Option.some.inj hvalid).symm
    · exact Or.inl (Option.some.inj hvalid).symm

/-- What is stored of such a text is at least as long. -/
lemma length_makeUTF8Blob (hmemory : ∀ n, (memory n).length = n) (hlen : 2 ^ 31 < p.length)
    (h : makeUTF8Blob icu memory p = some b) : 2 ^ 32 < b.length := by
  obtain ⟨valid, hvalid, h⟩ := Option.bind_eq_some_iff.1 h
  obtain ⟨hlong, rfl | rfl⟩ := isValidUTF8_far hlen hvalid
  · obtain ⟨s, -, -, hroom, hlength⟩ := length_cleanseUTF8 hmemory h
    have hle : toInt32 (p.length + 2 * icu.substitutions s) ≤
        ((p.length + 2 * icu.substitutions s : ℕ) : ℤ) := by
      rw [toInt32_eq]
      split_ifs <;> omega
    rw [hlength (by omega)]
    omega
  · rw [← Option.some.inj h, List.take_length]
    exact hlong

/-! ### Replaced texts -/

/-- A text that is not accepted is characters as far as to an ill-formed sequence. -/
lemma pieces_of_not_accepts (h : icu.accepts p = false) : ∃ before t after,
    icu.pieces p = before ++ .ill t :: after ∧ ∀ q ∈ before, q.isIll = false := by
  rw [ICU.accepts] at h
  generalize icu.pieces p = l at h ⊢
  induction l with
  | nil => cases h
  | cons q l ih =>
    cases q with
    | ill t => exact ⟨[], t, l, rfl, fun _ hmem => absurd hmem List.not_mem_nil⟩
    | char c =>
      obtain ⟨before, t, after, rfl, hbefore⟩ := ih (by simpa [Piece.isIll] using h)
      exact ⟨.char c :: before, t, after, rfl, List.forall_mem_cons.2 ⟨rfl, hbefore⟩⟩

/-- The replacement of the first of them makes the text another one. -/
lemma not_cleanse_prefix (hbytes : (icu.pieces p).flatMap Piece.bytes = p)
    (hkeeps : icu.KeepsCharacters) (hacc : icu.accepts p = false) : ¬ icu.cleanse p <+: p := by
  obtain ⟨before, t, after, hpieces, hbefore⟩ := pieces_of_not_accepts hacc
  intro hprefix
  have hsame : before.flatMap Piece.cleansed = before.flatMap Piece.bytes := by
    refine List.flatMap_congr fun q hq => ?_
    cases q with
    | char c => rfl
    | ill t => exact absurd (hbefore _ hq) Bool.noConfusion
  rw [ICU.cleanse, hpieces, List.flatMap_append, hsame] at hprefix
  rw [← hbytes] at hprefix
  rw [hpieces, List.flatMap_append, List.prefix_append_right_inj, List.flatMap_cons,
    List.flatMap_cons] at hprefix
  exact hkeeps p before t after hpieces (Char.ofNat 0xFFFD)
    ((List.prefix_append [239, 191, 189] _).trans hprefix)

/-- The value that is made of a text which is not valid is no part of it. -/
lemma ICU.Documented.not_prefix (h : icu.Documented) (hkeeps : icu.KeepsCharacters)
    (hlen : p.length ≤ 2 ^ 31) (hp : Replaced icu p) (hb : cleanseUTF8 icu memory p = some b) :
    ¬ b <+: p := by
  have hacc : icu.accepts p = false := by
    rw [← Bool.not_eq_true]
    intro hacc
    have hvalid := h.accepts_iff.1 hacc
    have htrim := (trimmed_of_ne_nil hp.1).trans (h.trimAt_valid hvalid hp.1)
    exact (hp.2 _ htrim).2 (by rwa [List.take_length])
  obtain ⟨s, hs, hb⟩ := Option.bind_eq_some_iff.1 hb
  obtain ⟨-, rfl⟩ := source_eq_some hlen hs
  rw [List.take_length] at hb
  have hfront : icu.cleanse p <+: b := by
    split_ifs at hb
    · rw [← Option.some.inj hb]
      exact List.prefix_append _ _
    · rw [← Option.some.inj hb]
      exact List.prefix_append _ _
  exact fun hprefix => not_cleanse_prefix (h.bytes p) hkeeps hacc (hfront.trans hprefix)

/-- The parts behind some of them are those of the rest of the text. -/
lemma cut_flatMap {before after : List Piece} (h : replacingTrails.cut p = before ++ after) :
    replacingTrails.cut (after.flatMap Piece.bytes) = after := by
  induction before generalizing p with
  | nil =>
    rw [List.nil_append] at h
    rw [← h, flatMap_cut]
  | cons q before ih =>
    cases p with
    | nil => rw [replacingTrails.cut] at h; cases h
    | cons b t =>
      rw [replacingTrails.cut] at h
      cases hdecode : (b :: t).toByteArray.utf8DecodeChar? 0 with
      | none =>
        rw [hdecode] at h
        exact ih (List.cons.inj h).2
      | some c =>
        rw [hdecode] at h
        exact ih (List.cons.inj h).2

lemma replacingTrails_keepsCharacters : replacingTrails.KeepsCharacters := by
  intro s before t after hpieces c hprefix
  have hcut := cut_flatMap hpieces
  obtain ⟨rest, hrest⟩ := hprefix
  rw [List.flatMap_cons, Piece.bytes, ← hrest, cut_append] at hcut
  cases (List.cons.inj hcut).1

end PionCore.Platform.EventValidator
