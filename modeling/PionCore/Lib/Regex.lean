/-
# Regular expressions with priorities

Regular expressions as they are searched for from left to right: an alternative prefers its first
branch, a repetition takes as many words as it can, and what does not fit later on is tried again
with the next choice.  `ends` is what a match may leave of a text, with the preferred one first;
`mem_ends` says that these are the matches in the sense of words.
-/
import Mathlib.Data.List.Basic
import Mathlib.Tactic.Common

namespace PionCore.Lib

variable {β : Type*}

inductive Regex (β : Type*) where
  | empty
  | letter (p : β → Bool)
  | cat (r s : Regex β)
  | alt (r s : Regex β)
  | rep (r : Regex β) (least most : ℕ)

namespace Regex

/-- The words that an expression stands for. -/
def Matches : Regex β → List β → Prop
  | .empty, w => w = []
  | .letter p, w => ∃ c, w = [c] ∧ p c = true
  | .cat r s, w => ∃ u v, w = u ++ v ∧ r.Matches u ∧ s.Matches v
  | .alt r s, w => r.Matches w ∨ s.Matches w
  | .rep r least most, w => ∃ us : List (List β), least ≤ us.length ∧ us.length ≤ most ∧
      (∀ u ∈ us, r.Matches u) ∧ w = us.flatten

/-- A repetition that takes as much as it can. -/
def repeated (f : List β → List (List β)) : ℕ → ℕ → List β → List (List β)
  | least, 0, t => if least = 0 then [t] else []
  | least, most + 1, t =>
      (f t).flatMap (repeated f (least - 1) most) ++ if least = 0 then [t] else []

/-- What a match at the beginning of a text may leave of it, in the order of preference. -/
def ends : Regex β → List β → List (List β)
  | .empty, t => [t]
  | .letter _, [] => []
  | .letter p, c :: t => if p c then [t] else []
  | .cat r s, t => (r.ends t).flatMap s.ends
  | .alt r s, t => r.ends t ++ s.ends t
  | .rep r least most, t => repeated r.ends least most t

/-- The whole text is a match. -/
def fullMatch (r : Regex β) (t : List β) : Bool := (r.ends t).any List.isEmpty

/-- The leftmost match, and what is behind it. -/
def search (r : Regex β) (t : List β) : Option (List β × List β) :=
  match r.ends t with
  | rest :: _ => some (t.take (t.length - rest.length), rest)
  | [] =>
      match t with
      | [] => none
      | _ :: t => search r t

/-- The letters of a word in front of an expression. -/
def before [BEq β] (w : List β) (r : Regex β) : Regex β :=
  w.foldr (fun c r => .cat (.letter (· == c)) r) r

variable {r s : Regex β} {p q : β → Bool} {least most : ℕ} {t u w : List β} {c : β}

/-! ### Words -/

lemma mem_repeated {f : List β → List (List β)} {P : List β → Prop}
    (hf : ∀ t u, u ∈ f t ↔ ∃ w, t = w ++ u ∧ P w) :
    u ∈ repeated f least most t ↔ ∃ us : List (List β), least ≤ us.length ∧ us.length ≤ most ∧
      (∀ w ∈ us, P w) ∧ t = us.flatten ++ u := by
  induction most generalizing least t with
  | zero =>
    rw [repeated]
    constructor
    · intro hu
      split_ifs at hu with hleast
      · obtain rfl := List.mem_singleton.1 hu
        exact ⟨[], by simp [hleast], Nat.le_refl 0, by simp, rfl⟩
      · cases hu
    · rintro ⟨us, hle, hlen, -, rfl⟩
      obtain rfl := List.eq_nil_of_length_eq_zero (Nat.le_zero.1 hlen)
      rw [if_pos (Nat.le_zero.1 hle)]
      exact List.mem_singleton.2 rfl
  | succ most ih =>
    rw [repeated, List.mem_append, List.mem_flatMap]
    constructor
    · rintro (⟨v, hv, hu⟩ | hu)
      · obtain ⟨w, rfl, hw⟩ := (hf t v).1 hv
        obtain ⟨us, hle, hlen, hall, rfl⟩ := ih.1 hu
        refine ⟨w :: us, ?_, Nat.succ_le_succ hlen, List.forall_mem_cons.2 ⟨hw, hall⟩, ?_⟩
        · rw [List.length_cons]
          omega
        · rw [List.flatten_cons, List.append_assoc]
      · split_ifs at hu with hleast
        · obtain rfl := List.mem_singleton.1 hu
          exact ⟨[], by simp [hleast], Nat.zero_le _, by simp, rfl⟩
        · cases hu
    · rintro ⟨us, hle, hlen, hall, rfl⟩
      cases us with
      | nil =>
        refine .inr ?_
        rw [if_pos (Nat.le_zero.1 hle)]
        exact List.mem_singleton.2 rfl
      | cons w us =>
        rw [List.length_cons] at hle hlen
        obtain ⟨hw, hall⟩ := List.forall_mem_cons.1 hall
        refine .inl ⟨us.flatten ++ u, (hf _ _).2 ⟨w, ?_, hw⟩, ih.2 ⟨us, ?_, ?_, hall, rfl⟩⟩
        · rw [List.flatten_cons, List.append_assoc]
        · omega
        · omega

/-- What a match leaves is behind a word of the expression. -/
theorem mem_ends : u ∈ r.ends t ↔ ∃ w, t = w ++ u ∧ r.Matches w := by
  induction r generalizing t u with
  | empty =>
    rw [ends, List.mem_singleton]
    constructor
    · rintro rfl
      exact ⟨[], rfl, rfl⟩
    · rintro ⟨w, rfl, rfl⟩
      rfl
  | letter p =>
    constructor
    · intro hu
      cases t with
      | nil => cases hu
      | cons c t =>
        rw [ends] at hu
        split_ifs at hu with hp
        · obtain rfl := List.mem_singleton.1 hu
          exact ⟨[c], rfl, c, rfl, hp⟩
        · cases hu
    · rintro ⟨w, rfl, c, rfl, hp⟩
      rw [List.singleton_append, ends, if_pos hp]
      exact List.mem_singleton.2 rfl
  | cat r s ihr ihs =>
    rw [ends, List.mem_flatMap]
    constructor
    · rintro ⟨x, hx, hu⟩
      obtain ⟨v, rfl, hv⟩ := ihr.1 hx
      obtain ⟨w, rfl, hw⟩ := ihs.1 hu
      exact ⟨v ++ w, (List.append_assoc ..).symm, v, w, rfl, hv, hw⟩
    · rintro ⟨_, rfl, v, w, rfl, hv, hw⟩
      exact ⟨w ++ u, ihr.2 ⟨v, List.append_assoc .., hv⟩, ihs.2 ⟨w, rfl, hw⟩⟩
  | alt r s ihr ihs =>
    rw [ends, List.mem_append, ihr, ihs]
    constructor
    · rintro (⟨w, rfl, hw⟩ | ⟨w, rfl, hw⟩)
      · exact ⟨w, rfl, .inl hw⟩
      · exact ⟨w, rfl, .inr hw⟩
    · rintro ⟨w, rfl, hw | hw⟩
      · exact .inl ⟨w, rfl, hw⟩
      · exact .inr ⟨w, rfl, hw⟩
  | rep r least most ih =>
    rw [ends, mem_repeated fun t u => ih]
    constructor
    · rintro ⟨us, hle, hlen, hall, rfl⟩
      exact ⟨us.flatten, rfl, us, hle, hlen, hall, rfl⟩
    · rintro ⟨_, rfl, us, hle, hlen, hall, rfl⟩
      exact ⟨us, hle, hlen, hall, rfl⟩

theorem fullMatch_iff : r.fullMatch t = true ↔ r.Matches t := by
  rw [fullMatch, List.any_eq_true]
  constructor
  · rintro ⟨u, hu, hnil⟩
    obtain rfl := List.isEmpty_iff.1 hnil
    obtain ⟨w, rfl, hw⟩ := mem_ends.1 hu
    rwa [List.append_nil]
  · intro h
    exact ⟨[], mem_ends.2 ⟨t, (List.append_nil t).symm, h⟩, rfl⟩

lemma matches_before [BEq β] [LawfulBEq β] :
    (before w r).Matches t ↔ ∃ u, t = w ++ u ∧ r.Matches u := by
  induction w generalizing t with
  | nil =>
    constructor
    · intro h
      exact ⟨t, rfl, h⟩
    · rintro ⟨_, rfl, hu⟩
      exact hu
  | cons c w ih =>
    show (∃ x v, t = x ++ v ∧ (∃ d, x = [d] ∧ (d == c) = true) ∧ (before w r).Matches v) ↔ _
    constructor
    · rintro ⟨_, v, rfl, ⟨d, rfl, hd⟩, hv⟩
      obtain ⟨u, rfl, hu⟩ := ih.1 hv
      obtain rfl := beq_iff_eq.1 hd
      exact ⟨u, rfl, hu⟩
    · rintro ⟨u, rfl, hu⟩
      exact ⟨[c], w ++ u, rfl, ⟨c, rfl, beq_iff_eq.2 rfl⟩, ih.2 ⟨u, rfl, hu⟩⟩

/-- The words of a number of letters. -/
lemma matches_rep_letter :
    (Regex.rep (.letter p) least most).Matches w ↔
      least ≤ w.length ∧ w.length ≤ most ∧ ∀ c ∈ w, p c = true := by
  constructor
  · rintro ⟨us, hle, hlen, hall, rfl⟩
    have hflat : us.flatten.length = us.length ∧ ∀ c ∈ us.flatten, p c = true := by
      clear hle hlen
      induction us with
      | nil => exact ⟨rfl, by simp⟩
      | cons u us ih =>
        obtain ⟨⟨c, rfl, hc⟩, hrest⟩ := List.forall_mem_cons.1 hall
        obtain ⟨hlength, hmem⟩ := ih hrest
        refine ⟨?_, ?_⟩
        · rw [List.flatten_cons, List.length_append, hlength, List.length_singleton,
            List.length_cons, Nat.add_comm]
        · rw [List.flatten_cons]
          exact List.forall_mem_cons.2 ⟨hc, hmem⟩
    rw [hflat.1]
    exact ⟨hle, hlen, hflat.2⟩
  · rintro ⟨hle, hlen, hall⟩
    refine ⟨w.map fun c => [c], ?_, ?_, fun u hu => ?_, ?_⟩
    · rwa [List.length_map]
    · rwa [List.length_map]
    · obtain ⟨c, hc, rfl⟩ := List.mem_map.1 hu
      exact ⟨c, rfl, hall c hc⟩
    · exact (List.flatMap_singleton' w).symm

/-! ### Searching -/

/-- Letters at which no match begins. -/
lemma search_skip (h : ∀ c ∈ w, ∀ u, r.ends (c :: u) = []) : r.search (w ++ t) = r.search t := by
  induction w with
  | nil => rfl
  | cons c w ih =>
    obtain ⟨hc, hw⟩ := List.forall_mem_cons.1 h
    rw [List.cons_append, search.eq_def, hc]
    exact ih hw

lemma search_of_ends {us : List (List β)} (h : r.ends (w ++ t) = t :: us) :
    r.search (w ++ t) = some (w, t) := by
  rw [search.eq_def, h]
  simp

/-- Nothing is found at the end of a text. -/
lemma search_nil (h : r.ends [] = []) : r.search [] = none := by
  rw [search.eq_def, h]

/-- A match that is found is a part of the text. -/
lemma search_eq_some (h : r.search t = some (w, u)) : ∃ v, t = v ++ (w ++ u) ∧ r.Matches w := by
  induction t with
  | nil =>
    rw [search.eq_def] at h
    cases hends : r.ends [] with
    | nil =>
      rw [hends] at h
      cases h
    | cons rest us =>
      rw [hends] at h
      obtain ⟨x, hx, hmatch⟩ := mem_ends.1 (hends ▸ List.mem_cons_self : rest ∈ r.ends [])
      obtain ⟨rfl, rfl⟩ := List.append_eq_nil_iff.1 hx.symm
      obtain ⟨rfl, rfl⟩ := Prod.mk.inj (Option.some.inj h)
      exact ⟨[], rfl, hmatch⟩
  | cons c t ih =>
    rw [search.eq_def] at h
    cases hends : r.ends (c :: t) with
    | nil =>
      rw [hends] at h
      obtain ⟨v, rfl, hmatch⟩ := ih h
      exact ⟨c :: v, rfl, hmatch⟩
    | cons rest us =>
      rw [hends] at h
      obtain ⟨x, hx, hmatch⟩ := mem_ends.1 (hends ▸ List.mem_cons_self : rest ∈ r.ends (c :: t))
      obtain ⟨hw, rfl⟩ := Prod.mk.inj (Option.some.inj h)
      have htake : (c :: t).take ((c :: t).length - rest.length) = x := by
        rw [hx]
        simp
      obtain rfl := hw.symm.trans htake
      exact ⟨[], hx, hmatch⟩

/-- As many letters as there are: the first end is behind them, and the other ones begin with one of
them. -/
lemma ends_rep_letter (hleast : least ≤ w.length) (hmost : w.length ≤ most)
    (hw : ∀ c ∈ w, p c = true) (ht : ∀ c ∈ t.head?, p c = false) :
    ∃ us, (Regex.rep (.letter p) least most).ends (w ++ t) = t :: us ∧
      ∀ u ∈ us, ∃ c v, u = c :: v ∧ p c = true := by
  simp only [ends]
  induction w generalizing least most with
  | nil =>
    obtain rfl := Nat.le_zero.1 hleast
    refine ⟨[], ?_, by simp⟩
    cases most with
    | zero => rfl
    | succ most =>
      have hnone : (Regex.letter p).ends t = [] := by
        cases t with
        | nil => rfl
        | cons c t => rw [ends, ht c rfl, if_neg Bool.false_ne_true]
      rw [List.nil_append, repeated, hnone]
      rfl
  | cons c w ih =>
    obtain ⟨hc, hw⟩ := List.forall_mem_cons.1 hw
    rw [List.length_cons] at hleast hmost
    obtain ⟨most, rfl⟩ := Nat.exists_eq_add_one.2 (Nat.zero_lt_of_lt hmost)
    have hleast' : least - 1 ≤ w.length := by omega
    have hmost' : w.length ≤ most := by omega
    obtain ⟨us, hus, hall⟩ := ih hleast' hmost' hw
    have hone : (Regex.letter p).ends (c :: (w ++ t)) = [w ++ t] := by
      rw [ends, if_pos hc]
    refine ⟨us ++ if least = 0 then [c :: (w ++ t)] else [], ?_, fun u hu => ?_⟩
    · rw [List.cons_append, repeated, hone, List.flatMap_singleton, hus]
      rfl
    · rcases List.mem_append.1 hu with hu | hu
      · exact hall u hu
      · split_ifs at hu
        · obtain rfl := List.mem_singleton.1 hu
          exact ⟨c, w ++ t, rfl, hc⟩
        · cases hu

/-- Letters up to a separator. -/
lemma ends_rep_sep (hleast : least ≤ w.length) (hmost : w.length ≤ most)
    (hw : ∀ c ∈ w, p c = true) (hpq : ∀ c, p c = true → q c = false) (hc : q c = true) :
    (Regex.cat (.rep (.letter p) least most) (.cat (.letter q) r)).ends (w ++ c :: t) =
      r.ends t := by
  have hhead : ∀ d ∈ (c :: t).head?, p d = false := by
    intro d hd
    obtain rfl : c = d := Option.some.inj hd
    cases hp : p c with
    | false => rfl
    | true => cases (hpq c hp).symm.trans hc
  obtain ⟨us, hus, hall⟩ := ends_rep_letter (t := c :: t) hleast hmost hw hhead
  have hrest : us.flatMap (Regex.cat (.letter q) r).ends = [] := by
    rw [List.flatMap_eq_nil_iff]
    intro u hu
    obtain ⟨d, v, rfl, hd⟩ := hall u hu
    rw [ends, ends, hpq d hd]
    rfl
  rw [ends, hus, List.flatMap_cons, hrest, List.append_nil, ends, ends, if_pos hc,
    List.flatMap_singleton]

end Regex

end PionCore.Lib
