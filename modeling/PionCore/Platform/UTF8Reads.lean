/-
# What the check of a text reads

`isValidUTF8` goes back over trail bytes from the end of a text, and tests whether it is in front of
the text only after it has looked there.  It takes a lead byte with too few bytes behind it for an
incomplete character, which it need not be; and the lengths are cut to 32 bits.
-/
import PionCore.Platform.UTF8Checks

namespace PionCore.Platform.EventValidator

open PionCore.Lib

/-! ### Positions -/

/-- The positions that the loop reads, from a position on. -/
def backUpReads (p : Bytes) : ℕ → List ℤ
  | 0 => 0 :: if isTrail (p.getD 0 0) ∧ p.length ≤ 4 then [-1] else []
  | i + 1 => ((i + 1 : ℕ) : ℤ) ::
      if isTrail (p.getD (i + 1) 0) ∧ p.length - (i + 1) ≤ 4 then backUpReads p i else []

/-- The positions that `isValidUTF8` reads itself, up to the first one that is not in the text. -/
def reads (p : Bytes) : List ℤ :=
  if p = [] then []
  else
    let i := toInt32 (p.length - 1)
    i :: if i < 0 ∨ isSingle (p.getD i.toNat 0) then []
      else backUpReads p i.toNat ++
        match backUp p i.toNat with
        | none => []
        | some j => if 4 < p.length - j then [] else [(j : ℤ)]

/-! ### What it is to do -/

/-- The beginning of a character, and not all of it. -/
def IsIncomplete (t : Bytes) : Prop :=
  t ≠ [] ∧ ∃ (c : Char) (u : Bytes), u ≠ [] ∧ String.utf8EncodeChar c = t ++ u

/-- The text is valid, or it is up to an incomplete last character; and the length without that. -/
def ValidAs (p : Bytes) (n : ℕ) : Prop :=
  n = p.length ∧ ValidUTF8 p ∨ n < p.length ∧ ValidUTF8 (p.take n) ∧ IsIncomplete (p.drop n)

/-- The check reads nothing outside of the text, and returns what the text is. -/
def ChecksWell (icu : ICU) (p : Bytes) : Prop :=
  (∀ i ∈ reads p, 0 ≤ i ∧ i < p.length) ∧
    ∃ valid, isValidUTF8 icu p = some valid ∧ ∀ n, valid = some n ↔ ValidAs p n

/-! ### The end of a text -/

/-- A byte that is no trail byte, and the trail bytes behind it up to the end of the text, of which
there are at most three; an ASCII character by itself is left out. -/
def EndsWith (p q : Bytes) (b : Byte) (t : Bytes) : Prop :=
  p = q ++ b :: t ∧ isTrail b = false ∧ (∀ x ∈ t, isTrail x = true) ∧ t.length ≤ 3 ∧
    (t = [] → isSingle b = false)

/-- At the end there is a character of ASCII, or a lead byte with as many trail bytes as it
announces. -/
def EndsWhole (icu : ICU) (p : Bytes) : Prop :=
  (∃ q b, p = q ++ [b] ∧ isSingle b = true) ∨
    ∃ q b t, EndsWith p q b t ∧ icu.isLead b = true ∧ t.length = icu.countTrailBytes b

/-- Behind `q` there is a lead byte with fewer trail bytes than it announces. -/
def EndsShort (icu : ICU) (p q : Bytes) : Prop :=
  ∃ b t, EndsWith p q b t ∧ icu.isLead b = true ∧ t.length < icu.countTrailBytes b

variable {icu : ICU} {p q t : Bytes} {b : Byte} {i j n o : ℕ}

/-- Where the loop stops near the end, it has come over trail bytes to another byte. -/
lemma backUp_eq_some (h : backUp p i = some j) (hfar : p.length - j ≤ 4) :
    isTrail (p.getD j 0) = false ∧ ∀ k, j < k → k ≤ i → isTrail (p.getD k 0) = true := by
  induction i with
  | zero =>
    rw [backUp] at h
    split_ifs at h with hstop
    obtain rfl := Option.some.inj h
    refine ⟨?_, fun k hk hk' => absurd hk (by omega)⟩
    by_contra hnot
    exact hstop ⟨eq_true_of_ne_false hnot, by omega⟩
  | succ i ih =>
    rw [backUp] at h
    split_ifs at h with hstop
    · obtain ⟨hj, hall⟩ := ih h
      refine ⟨hj, fun k hk hk' => ?_⟩
      rcases Nat.lt_or_ge i k with hlt | hge
      · obtain rfl : k = i + 1 := by omega
        exact hstop.1
      · exact hall k hk hge
    · obtain rfl := Option.some.inj h
      refine ⟨?_, fun k hk hk' => absurd hk (by omega)⟩
      by_contra hnot
      exact hstop ⟨eq_true_of_ne_false hnot, hfar⟩

lemma backUp_eq_none : backUp p i = none ↔
    p.length ≤ 4 ∧ ∀ k ≤ i, isTrail (p.getD k 0) = true := by
  induction i with
  | zero =>
    rw [backUp]
    split_ifs with hstop
    · refine iff_of_true rfl ⟨hstop.2, fun k hk => ?_⟩
      rw [Nat.le_zero.1 hk]
      exact hstop.1
    · refine iff_of_false id fun h => hstop ⟨h.2 0 (le_refl 0), h.1⟩
  | succ i ih =>
    rw [backUp]
    split_ifs with hstop
    · rw [ih]
      refine and_congr_right fun _ => ⟨fun h k hk => ?_, fun h k hk => h k (by omega)⟩
      rcases Nat.lt_or_ge i k with hlt | hge
      · obtain rfl : k = i + 1 := by omega
        exact hstop.1
      · exact h k hge
    · refine iff_of_false id fun h => hstop ⟨h.2 (i + 1) (le_refl _), ?_⟩
      have := h.1
      omega

/-- The loop stays in the text if and only if it stops in it. -/
lemma backUpReads_inside (hi : i < p.length) :
    (∀ k ∈ backUpReads p i, 0 ≤ k ∧ k < p.length) ↔ backUp p i ≠ none := by
  induction i with
  | zero =>
    rw [backUpReads, backUp]
    split_ifs with hstop
    · refine iff_of_false (fun h => ?_) (not_not_intro rfl)
      have := h (-1) (by simp)
      omega
    · refine iff_of_true (fun k hk => ?_) (Option.some_ne_none 0)
      rw [List.mem_singleton.1 hk]
      omega
  | succ i ih =>
    rw [backUpReads, backUp, List.forall_mem_cons]
    have hfirst : (0 : ℤ) ≤ ((i + 1 : ℕ) : ℤ) ∧ ((i + 1 : ℕ) : ℤ) < p.length := by omega
    rw [and_iff_right hfirst]
    split_ifs with hstop
    · exact ih (by omega)
    · exact iff_of_true (fun k hk => absurd hk List.not_mem_nil) (Option.some_ne_none _)

/-! ### Trimming -/

lemma EndsWith.length (h : EndsWith p q b t) : p.length = q.length + t.length + 1 := by
  rw [h.1, List.length_append, List.length_cons]
  omega

lemma EndsWith.getD (h : EndsWith p q b t) : p.getD q.length 0 = b := by
  rw [h.1, List.getD_append_right _ _ _ _ le_rfl, Nat.sub_self]
  rfl

/-- The last byte is no character by itself. -/
lemma EndsWith.isSingle_last (h : EndsWith p q b t) :
    isSingle (p.getD (p.length - 1) 0) = false := by
  have hlength := h.length
  obtain ⟨hp, -, ht, -, hsingle⟩ := h
  rcases List.eq_nil_or_concat t with rfl | ⟨t, x, rfl⟩
  · have hlast : p.length - 1 = q.length := by
      rw [hlength]
      rfl
    rw [hlast, hp, List.getD_append_right _ _ _ _ le_rfl, Nat.sub_self]
    exact hsingle rfl
  · have htrail := ht x (by simp)
    have hget : p.getD (p.length - 1) 0 = x := by
      rw [hp]
      simp [List.getD]
    rw [hget, isSingle]
    simp only [isTrail, decide_eq_true_eq, UInt8.le_iff_toNat_le] at htrail
    exact decide_eq_false fun h => absurd (UInt8.lt_iff_toNat_lt.1 h) (by omega)

lemma EndsWith.backUp (h : EndsWith p q b t) : backUp p (p.length - 1) = some q.length := by
  rw [h.length, Nat.add_sub_cancel]
  exact backUp_trail h.1 h.2.1 h.2.2.1 h.2.2.2.1 le_rfl

/-- What is made of a text that ends with a lead byte. -/
lemma EndsWith.trimAt (h : EndsWith p q b t) (hlead : icu.isLead b = true)
    (hle : t.length ≤ icu.countTrailBytes b) : trimAt icu p (p.length - 1) =
      some (if t.length < icu.countTrailBytes b then q.length else p.length) := by
  have hlength := h.length
  have hthree := h.2.2.2.1
  rw [EventValidator.trimAt, h.isSingle_last, if_neg Bool.false_ne_true, h.backUp, Option.bind_some,
    if_neg (by omega), h.getD, hlead, if_neg (by simp), if_neg (by omega)]
  split_ifs <;> first | rfl | omega

lemma trimAt_of_single (h : isSingle (p.getD i 0) = true) : trimAt icu p i = some p.length := by
  rw [trimAt, if_pos h]

/-- Where the loop stops near the end, the text ends with what is there. -/
lemma endsWith_of_backUp (hne : p ≠ []) (hsingle : isSingle (p.getD (p.length - 1) 0) = false)
    (hj : EventValidator.backUp p (p.length - 1) = some j) (hfar : p.length - j ≤ 4) :
    EndsWith p (p.take j) (p.getD j 0) (p.drop (j + 1)) := by
  have hpos := List.length_pos_iff.2 hne
  have hle := backUp_le hj
  have hlt : j < p.length := by omega
  obtain ⟨htrail, hall⟩ := backUp_eq_some hj hfar
  refine ⟨?_, htrail, fun x hx => ?_, ?_, fun hnil => ?_⟩
  · rw [List.getD_eq_getElem _ _ hlt, List.cons_getElem_drop_succ, List.take_append_drop]
  · obtain ⟨k, hk, rfl⟩ := List.getElem_of_mem hx
    rw [List.length_drop] at hk
    have hget := hall (j + 1 + k) (by omega) (by omega)
    rw [List.getD_eq_getElem _ _ (by omega)] at hget
    rw [List.getElem_drop]
    exact hget
  · rw [List.length_drop]
    omega
  · have hlast : j = p.length - 1 := by
      have := List.drop_eq_nil_iff.1 hnil
      omega
    rw [hlast]
    exact hsingle

/-- Where the text ends is found in no other case. -/
lemma trimAt_eq_some (hne : p ≠ []) (h : trimAt icu p (p.length - 1) = some o) :
    o = p.length ∧ EndsWhole icu p ∨ ∃ q, o = q.length ∧ EndsShort icu p q := by
  have hpos := List.length_pos_iff.2 hne
  rw [trimAt] at h
  split_ifs at h with hsingle
  · -- a character of ASCII
    refine Or.inl ⟨(Option.some.inj h).symm, Or.inl ⟨p.dropLast, p.getLast hne, ?_, ?_⟩⟩
    · exact (List.dropLast_append_getLast hne).symm
    · rw [List.getLast_eq_getElem, ← List.getD_eq_getElem p 0]
      exact hsingle
  · obtain ⟨j, hj, h⟩ := Option.bind_eq_some_iff.1 h
    have hle := backUp_le hj
    by_cases hfar : 4 < p.length - j
    · rw [if_pos hfar] at h
      cases h
    have hends := endsWith_of_backUp hne (eq_false_of_ne_true hsingle) hj (by omega)
    have hdrop : (p.drop (j + 1)).length = p.length - (j + 1) := List.length_drop
    have htake : (p.take j).length = j := List.length_take_of_le (by omega)
    rw [if_neg hfar] at h
    split_ifs at h with hlead hmany hfew
    · obtain rfl := Option.some.inj h
      exact Or.inr ⟨p.take j, htake.symm, _, _, hends, by simpa using hlead, by omega⟩
    · refine Or.inl ⟨(Option.some.inj h).symm, Or.inr ⟨_, _, _, hends, by simpa using hlead, ?_⟩⟩
      omega

lemma EndsShort.trimAt (h : EndsShort icu p q) :
    trimAt icu p (p.length - 1) = some q.length ∧ q.length < p.length := by
  obtain ⟨b, t, hends, hlead, hlt⟩ := h
  have hlength := hends.length
  rw [hends.trimAt hlead hlt.le, if_pos hlt]
  exact ⟨rfl, by omega⟩

lemma EndsWhole.trimAt (h : EndsWhole icu p) :
    EventValidator.trimAt icu p (p.length - 1) = some p.length := by
  rcases h with ⟨q, b, rfl, hsingle⟩ | ⟨q, b, t, hends, hlead, heq⟩
  · refine trimAt_of_single ?_
    rw [List.length_append, List.length_singleton, Nat.add_sub_cancel,
      List.getD_append_right _ _ _ _ le_rfl, Nat.sub_self]
    exact hsingle
  · rw [hends.trimAt hlead heq.le, if_neg (by omega)]

/-- An incomplete character ends the text as a lead byte with too few bytes behind it. -/
lemma ICU.Documented.endsShort (h : icu.Documented) (ht : IsIncomplete t) :
    EndsShort icu (q ++ t) q := by
  obtain ⟨hne, c, u, hu, hc⟩ := ht
  rcases encode_cases c with ⟨x, hx, -⟩ | ⟨x, w, hx, hw, hlen, hsingle, htrail, hall⟩
  · -- a character of one byte has no beginning of its own
    rw [hc] at hx
    have hlength := congrArg List.length hx
    have hpos := List.length_pos_iff.2 hne
    have hpos' := List.length_pos_iff.2 hu
    rw [List.length_append, List.length_singleton] at hlength
    omega
  · obtain ⟨y, t', rfl⟩ := List.exists_cons_of_ne_nil hne
    have heq := hc.symm.trans hx
    rw [List.cons_append] at heq
    obtain ⟨rfl, rfl⟩ := List.cons.inj heq
    obtain ⟨hlead, hcount⟩ := h.lead c y (t' ++ u) hx hw
    have hpos := List.length_pos_iff.2 hu
    rw [List.length_append] at hlen hcount
    refine ⟨y, t', ⟨rfl, htrail, fun z hz => ?_, by omega, fun _ => hsingle⟩, hlead, by omega⟩
    exact (hall z (List.mem_append_left u hz)).1

/-- What a text is decides where it is trimmed. -/
lemma ICU.Documented.trimAt_of_validAs (h : icu.Documented) (hne : p ≠ []) (hv : ValidAs p n) :
    trimAt icu p (p.length - 1) = some n := by
  rcases hv with ⟨rfl, hv⟩ | ⟨hlt, -, hinc⟩
  · exact h.trimAt_valid hv hne
  · have hshort := h.endsShort (q := p.take n) hinc
    rw [List.take_append_drop] at hshort
    rw [hshort.trimAt.1, List.length_take_of_le hlt.le]

/-! ### Short texts -/

lemma all_isTrail_iff (hne : p ≠ []) :
    (∀ b ∈ p, isTrail b = true) ↔ ∀ k ≤ p.length - 1, isTrail (p.getD k 0) = true := by
  have hpos := List.length_pos_iff.2 hne
  constructor
  · intro hall k hk
    rw [List.getD_eq_getElem _ _ (by omega)]
    exact hall _ (List.getElem_mem _)
  · intro hall b hb
    obtain ⟨k, hk, rfl⟩ := List.getElem_of_mem hb
    rw [← List.getD_eq_getElem p 0]
    exact hall k (by omega)

lemma isTrail_of_isSingle (h : isSingle b = true) : isTrail b = false := by
  simp only [isSingle, decide_eq_true_eq, UInt8.lt_iff_toNat_lt] at h
  simp only [isTrail, decide_eq_false_iff_not, UInt8.le_iff_toNat_le]
  exact fun hle => absurd hle.1 (not_le.2 h)

/-- Nothing in front of a short text is read unless it has only trail bytes, four at most. -/
lemma reads_inside (hne : p ≠ []) (hlen : p.length ≤ 2 ^ 31) :
    (∀ i ∈ reads p, 0 ≤ i ∧ i < p.length) ↔ ¬ (p.length ≤ 4 ∧ ∀ b ∈ p, isTrail b = true) := by
  have hpos := List.length_pos_iff.2 hne
  have hlast : toInt32 (p.length - 1) = ((p.length - 1 : ℕ) : ℤ) := toInt32_of_lt (by omega)
  have hfirst : (0 : ℤ) ≤ ((p.length - 1 : ℕ) : ℤ) ∧ ((p.length - 1 : ℕ) : ℤ) < p.length := by omega
  rw [reads, if_neg hne, hlast]
  dsimp only
  rw [Int.toNat_natCast, List.forall_mem_cons, and_iff_right hfirst, all_isTrail_iff hne,
    ← backUp_eq_none]
  cases hsingle : isSingle (p.getD (p.length - 1) 0) with
  | true =>
    rw [if_pos (Or.inr rfl)]
    refine iff_of_true (fun i hi => absurd hi List.not_mem_nil) fun hnone => ?_
    have htrail := (backUp_eq_none.1 hnone).2 (p.length - 1) le_rfl
    rw [isTrail_of_isSingle hsingle] at htrail
    cases htrail
  | false =>
    rw [if_neg (by simp), List.forall_mem_append, backUpReads_inside (by omega)]
    refine and_iff_left_iff_imp.2 fun hback i hi => ?_
    obtain ⟨j, hj⟩ := Option.ne_none_iff_exists'.1 hback
    have hle := backUp_le hj
    rw [hj] at hi
    dsimp only at hi
    split_ifs at hi
    · exact absurd hi List.not_mem_nil
    · rw [List.mem_singleton.1 hi]
      omega

lemma validAs_iff_of_le (hle : n ≤ p.length) : ValidAs p n ↔
    ValidUTF8 (p.take n) ∧ (n < p.length → IsIncomplete (p.drop n)) := by
  constructor
  · rintro (⟨rfl, hv⟩ | ⟨-, hv, hinc⟩)
    · rw [List.take_length]
      exact ⟨hv, fun hlt => absurd hlt (lt_irrefl _)⟩
    · exact ⟨hv, fun _ => hinc⟩
  · rintro ⟨hv, hinc⟩
    rcases Nat.lt_or_ge n p.length with hshort | hge
    · exact Or.inr ⟨hshort, hv, hinc hshort⟩
    · rw [List.take_of_length_le hge] at hv
      exact Or.inl ⟨le_antisymm hle hge, hv⟩

/-- What the check returns for a short text is right where it is trimmed right, and its length is
one of an `int32_t`. -/
lemma ICU.Documented.isValidUTF8_right (h : icu.Documented) (hne : p ≠ [])
    (hlen : p.length ≤ 2 ^ 31) :
    (∃ valid, isValidUTF8 icu p = some valid ∧ ∀ n, valid = some n ↔ ValidAs p n) ↔
      ∀ o, trimAt icu p (p.length - 1) = some o → o < 2 ^ 31 ∧
        (o < p.length → ValidUTF8 (p.take o) → IsIncomplete (p.drop o)) := by
  have hunique : ∀ n, ValidAs p n → trimAt icu p (p.length - 1) = some n := fun n hv =>
    h.trimAt_of_validAs hne hv
  rw [isValidUTF8_eq hne hlen, trimmed_of_ne_nil hne]
  rcases htrim : trimAt icu p (p.length - 1) with _ | _ | o
  · refine iff_of_true ⟨none, rfl, fun n => iff_of_false (Option.some_ne_none n ·.symm) ?_⟩ ?_
    · intro hv
      rw [hunique n hv] at htrim
      cases htrim
    · intro o ho
      cases ho
  · -- nothing is left of the text
    have hpos := List.length_pos_iff.2 hne
    constructor
    · rintro ⟨valid, hvalid, hiff⟩ o ho
      obtain rfl : 0 = o := Option.some.inj ho
      obtain rfl : some 0 = valid := Option.some.inj hvalid
      refine ⟨by decide, fun _ _ => ?_⟩
      exact ((validAs_iff_of_le (Nat.zero_le _)).1 ((hiff 0).1 rfl)).2 hpos
    · intro hcond
      have hinc := (hcond 0 rfl).2 hpos ValidUTF8.nil
      refine ⟨some 0, rfl, fun n => ⟨fun heq => ?_, fun hv => (hunique n hv ▸ htrim).symm⟩⟩
      obtain rfl : 0 = n := Option.some.inj heq
      exact Or.inr ⟨hpos, ValidUTF8.nil, hinc⟩
  · have hle := trimAt_le (by have := List.length_pos_iff.2 hne; omega) htrim
    have honly : ∀ n, ValidAs p n → n = o + 1 := fun n hv =>
      Option.some.inj ((hunique n hv).symm.trans htrim)
    by_cases hlt : o + 1 < 2 ^ 31
    · have hne' : p.take (o + 1) ≠ [] := fun hnil => by
        have hlength := congrArg List.length hnil
        rw [List.length_take_of_le hle] at hlength
        exact Nat.succ_ne_zero o hlength
      simp only [source_of_lt hlt, Option.bind_some, if_neg hne']
      constructor
      · rintro ⟨valid, hvalid, hiff⟩ o' ho
        obtain rfl : o + 1 = o' := Option.some.inj ho
        refine ⟨hlt, fun hshort hv => ?_⟩
        rw [if_pos (h.accepts_iff.2 hv)] at hvalid
        obtain rfl := Option.some.inj hvalid
        exact ((validAs_iff_of_le hle).1 ((hiff (o + 1)).1 rfl)).2 hshort
      · intro hcond
        refine ⟨_, rfl, fun n => ?_⟩
        by_cases hv : ValidUTF8 (p.take (o + 1))
        · rw [if_pos (h.accepts_iff.2 hv)]
          refine ⟨fun heq => ?_, fun hv' => by rw [honly n hv']⟩
          obtain rfl : o + 1 = n := Option.some.inj heq
          exact (validAs_iff_of_le hle).2 ⟨hv, fun hshort => (hcond (o + 1) rfl).2 hshort hv⟩
        · rw [if_neg fun hacc => hv (h.accepts_iff.1 hacc)]
          refine iff_of_false (fun heq => by cases heq) fun hv' => hv ?_
          obtain rfl := honly n hv'
          exact ((validAs_iff_of_le hle).1 hv').1
    · -- the length is no `int32_t`
      have hnone : source p (o + 1) = none := by
        cases hs : source p (o + 1) with
        | none => rfl
        | some s => exact absurd (source_eq_some (hle.trans hlen) hs).1 hlt
      refine iff_of_false ?_ fun hcond => hlt (hcond (o + 1) rfl).1
      rintro ⟨valid, hvalid, -⟩
      dsimp only at hvalid
      rw [hnone] at hvalid
      cases hvalid

/-! ### Long texts -/

/-- Far from the end of a text the loop does not go back. -/
lemma backUp_far (hfar : i + 4 < p.length) : backUp p i = some i := by
  cases i with
  | zero => rw [backUp, if_neg fun h => absurd h.2 (by omega)]
  | succ i => rw [backUp, if_neg fun h => absurd h.2 (by omega)]

lemma trimAt_far_of_not_single (hfar : i + 4 < p.length) (hsingle : isSingle (p.getD i 0) = false) :
    trimAt icu p i = none := by
  rw [trimAt, hsingle, if_neg Bool.false_ne_true, backUp_far hfar, Option.bind_some,
    if_pos (by omega)]

lemma reads_inside_long (hlen : 2 ^ 31 < p.length) :
    (∀ i ∈ reads p, 0 ≤ i ∧ i < p.length) ↔ 0 ≤ toInt32 (p.length - 1) := by
  have hne : p ≠ [] := List.ne_nil_of_length_pos (by omega)
  constructor
  · intro h
    refine (h _ ?_).1
    rw [reads, if_neg hne]
    exact List.mem_cons_self
  · intro hint
    obtain ⟨hlast, hlow, hlong⟩ := long_length hlen hint
    have hfar : (p.length - 1) % 2 ^ 32 + 4 < p.length := by omega
    have hback := backUp_far hfar
    rw [reads, if_neg hne, hlast]
    dsimp only
    rw [Int.toNat_natCast, List.forall_mem_cons]
    refine ⟨by omega, fun i hi => ?_⟩
    split_ifs at hi
    · exact absurd hi List.not_mem_nil
    · rw [hback] at hi
      dsimp only at hi
      rw [if_pos (by omega), List.append_nil] at hi
      exact (backUpReads_inside (by omega)).2 (by rw [hback]; exact Option.some_ne_none _) i hi

/-- A text is valid as far as to a character of ASCII that is not near its end. -/
lemma ValidAs.take (hv : ValidAs p n) (hfar : i + 4 < p.length)
    (hsingle : isSingle (p.getD i 0) = true) : ValidUTF8 (p.take (i + 1)) := by
  rcases hv with ⟨-, hv⟩ | ⟨hlt, hv, -, c, u, hu, hc⟩
  · exact validUTF8_take hv (by omega) hsingle
  · have hshort : p.length - n < 4 := by
      have hlength := congrArg List.length hc
      have hpos := List.length_pos_iff.2 hu
      rw [String.length_utf8EncodeChar, List.length_append, List.length_drop] at hlength
      have hsize := c.utf8Size_le_four
      omega
    have hget : (p.take n).getD i 0 = p.getD i 0 := by
      rw [List.getD_eq_getElem _ _ (by rw [List.length_take]; omega),
        List.getD_eq_getElem _ _ (by omega), List.getElem_take]
    have htake := validUTF8_take hv (i := i) (by rw [List.length_take]; omega) (by rwa [hget])
    rwa [List.take_take, Nat.min_eq_left (by omega)] at htake

/-- What is left of a length of more than 32 bits, as the position of the last byte. -/
def lastOf (p : Bytes) : ℕ := (p.length - 1) % 2 ^ 32

lemma ICU.Documented.isValidUTF8_right_long (h : icu.Documented) (hlen : 2 ^ 31 < p.length)
    (hint : 0 ≤ toInt32 (p.length - 1)) :
    (∃ valid, isValidUTF8 icu p = some valid ∧ ∀ n, valid = some n ↔ ValidAs p n) ↔
      (isSingle (p.getD (lastOf p) 0) = true ∧ lastOf p < 2 ^ 31 - 1 ∧
          (ValidUTF8 (p.take (lastOf p + 1)) → ValidUTF8 p)) ∨
        isSingle (p.getD (lastOf p) 0) = false ∧ ∀ n, ¬ ValidAs p n := by
  have hne : p ≠ [] := List.ne_nil_of_length_pos (by omega)
  obtain ⟨-, hlow, hlong⟩ := long_length hlen hint
  have hfar : lastOf p + 4 < p.length := by rw [lastOf]; omega
  rw [isValidUTF8_long icu hlen hint, ← lastOf]
  cases hsingle : isSingle (p.getD (lastOf p) 0) with
  | false =>
    rw [trimAt_far_of_not_single hfar hsingle]
    constructor
    · rintro ⟨valid, hvalid, hiff⟩
      obtain rfl := Option.some.inj hvalid
      exact Or.inr ⟨rfl, fun n hv => Option.some_ne_none n ((hiff n).2 hv).symm⟩
    · rintro (⟨hnot, -⟩ | ⟨-, hnone⟩)
      · cases hnot
      · exact ⟨none, rfl, fun n => iff_of_false (fun heq => by cases heq) (hnone n)⟩
  | true =>
    have honly : ∀ n, ValidAs p n → ValidUTF8 (p.take (lastOf p + 1)) := fun n hv =>
      hv.take hfar hsingle
    rw [trimAt_of_single hsingle]
    obtain ⟨k, hk⟩ : ∃ k, p.length = k + 1 := Nat.exists_eq_succ_of_ne_zero (by omega)
    have hsource := source_long hlen hint
    rw [← lastOf] at hsource hlow
    rw [hk] at hsource ⊢
    dsimp only
    rw [hsource]
    by_cases hroom : lastOf p < 2 ^ 31 - 1
    · have hnil : p.take (lastOf p + 1) ≠ [] := fun hnil => by
        have hlength := congrArg List.length hnil
        rw [List.length_take_of_le (by omega)] at hlength
        exact Nat.succ_ne_zero _ hlength
      simp only [if_pos hroom, Option.bind_some, if_neg hnil]
      constructor
      · rintro ⟨valid, hvalid, hiff⟩
        refine Or.inl ⟨trivial, hroom, fun hv => ?_⟩
        rw [if_pos (h.accepts_iff.2 hv)] at hvalid
        obtain rfl := Option.some.inj hvalid
        rcases (hiff (k + 1)).1 rfl with ⟨-, hp⟩ | ⟨hlt, -⟩
        · exact hp
        · exact absurd hlt (by omega)
      · rintro (⟨-, -, himp⟩ | ⟨hnot, -⟩)
        · refine ⟨_, rfl, fun n => ?_⟩
          by_cases hv : ValidUTF8 (p.take (lastOf p + 1))
          · have hwhole : ValidAs p (k + 1) := Or.inl ⟨hk.symm, himp hv⟩
            rw [if_pos (h.accepts_iff.2 hv)]
            constructor
            · intro heq
              obtain rfl : k + 1 = n := Option.some.inj heq
              exact hwhole
            · intro hv'
              exact (h.trimAt_of_validAs hne hwhole).symm.trans (h.trimAt_of_validAs hne hv')
          · rw [if_neg fun hacc => hv (h.accepts_iff.1 hacc)]
            exact iff_of_false (fun heq => by cases heq) fun hv' => hv (honly n hv')
        · cases hnot
    · simp only [if_neg hroom]
      refine iff_of_false ?_ ?_
      · rintro ⟨valid, hvalid, -⟩
        cases hvalid
      · rintro (⟨-, hlt, -⟩ | ⟨hnot, -⟩)
        · exact hroom hlt
        · cases hnot

/-! ### All texts -/

/-- Where the check is right.  A text of up to 2^31 bytes must not have trail bytes only, four at
most; if it has 2^31, a whole character must not be at its end; and where too few bytes are behind a
lead byte at the end of what is valid, they must be the beginning of a character.  Of a longer text
the check looks at what is left of its length. -/
def Checkable (icu : ICU) (p : Bytes) : Prop :=
  p = [] ∨
  (p.length ≤ 2 ^ 31 ∧ ¬ (p.length ≤ 4 ∧ ∀ b ∈ p, isTrail b = true) ∧
    (p.length = 2 ^ 31 → ¬ EndsWhole icu p) ∧
    ∀ q, EndsShort icu p q → ValidUTF8 q → IsIncomplete (p.drop q.length)) ∨
  (2 ^ 31 < p.length ∧ lastOf p < 2 ^ 31 ∧
    ((isSingle (p.getD (lastOf p) 0) = true ∧ lastOf p < 2 ^ 31 - 1 ∧
        (ValidUTF8 (p.take (lastOf p + 1)) → ValidUTF8 p)) ∨
      isSingle (p.getD (lastOf p) 0) = false ∧ ∀ n, ¬ ValidAs p n))

lemma checksWell_nil (icu : ICU) : ChecksWell icu [] := by
  refine ⟨fun i hi => absurd hi List.not_mem_nil, some 0, rfl, fun n => ?_⟩
  constructor
  · intro heq
    obtain rfl : 0 = n := Option.some.inj heq
    exact Or.inl ⟨rfl, ValidUTF8.nil⟩
  · rintro (⟨rfl, -⟩ | ⟨hlt, -⟩)
    · rfl
    · exact absurd hlt (Nat.not_lt_zero n)

/-- The check reads only the text, and tells whether it is valid but for an incomplete last
character, and the length without that, if and only if the text is checkable. -/
theorem checksWell_iff (h : icu.Documented) (p : Bytes) : ChecksWell icu p ↔ Checkable icu p := by
  by_cases hne : p = []
  · subst hne
    exact iff_of_true (checksWell_nil icu) (Or.inl rfl)
  rw [Checkable, or_iff_right hne, ChecksWell]
  rcases Nat.lt_or_ge (2 ^ 31) p.length with hlen | hlen
  · have hint : 0 ≤ toInt32 (p.length - 1) ↔ lastOf p < 2 ^ 31 := by
      rw [toInt32_eq, lastOf]
      split_ifs <;> omega
    rw [or_iff_right fun hshort => absurd hshort.1 (by omega), reads_inside_long hlen,
      and_iff_right hlen, ← hint]
    exact and_congr_right fun hpos => h.isValidUTF8_right_long hlen hpos
  · rw [or_iff_left fun hlong => absurd hlong.1 (by omega), reads_inside hne hlen,
      h.isValidUTF8_right hne hlen, and_iff_right hlen]
    refine and_congr_right fun _ => ?_
    constructor
    · intro hcond
      refine ⟨fun heq hwhole => ?_, fun q hshort hv => ?_⟩
      · exact absurd (hcond _ hwhole.trimAt).1 (by omega)
      · obtain ⟨htrim, hlt⟩ := hshort.trimAt
        refine (hcond _ htrim).2 hlt ?_
        obtain ⟨b, t, hends, -⟩ := hshort
        rwa [hends.1, List.take_left]
    · rintro ⟨hwhole, hshort⟩ o htrim
      rcases trimAt_eq_some hne htrim with ⟨rfl, hends⟩ | ⟨q, rfl, hends⟩
      · refine ⟨lt_of_le_of_ne hlen fun heq => hwhole heq hends, fun hlt => ?_⟩
        exact absurd hlt (lt_irrefl _)
      · obtain ⟨-, hlt⟩ := hends.trimAt
        refine ⟨by omega, fun _ hv => hshort q hends ?_⟩
        obtain ⟨b, t, hends, -⟩ := hends
        rwa [hends.1, List.take_left] at hv

/-- A letter and two bytes of a euro sign. -/
theorem checksWell_iff_euro : ChecksWell replacingTrails [97, 226, 130] := by
  refine (checksWell_iff replacingTrails_documented [97, 226, 130]).2
    (Or.inr (Or.inl ⟨by decide, by decide, fun heq => absurd heq (by decide), ?_⟩))
  intro q hshort _
  have hlength : some 1 = some q.length := hshort.trimAt.1
  rw [← Option.some.inj hlength]
  exact ⟨by decide, '€', [172], by decide, by decide⟩

/-- For a trail byte by itself the check looks at the byte in front of the text. -/
theorem not_checksWell :
    ¬ ∀ (icu : ICU) (p : Bytes), icu.Documented → ChecksWell icu p := by
  intro hall
  have hreads := (hall replacingTrails [128] replacingTrails_documented).1
  exact absurd (hreads (-1) (by decide)).1 (by decide)

end PionCore.Platform.EventValidator
