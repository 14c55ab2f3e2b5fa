/-
# Searching for whole words

A regular expression between two word boundaries is searched for from left to right, what it matches
is replaced by a mark, and the search goes on behind it as if nothing were in front.  If the matches
begin and end with letters of words, and the mark is a letter of words that no match has, a search
of the result finds nothing.
-/
import PionCore.Lib.Regex

namespace PionCore.Lib

variable {β : Type*}

namespace Regex

/-- Every match begins with such a letter. -/
def Begins (r : Regex β) (p : β → Bool) : Prop := ∀ w, r.Matches w → ∃ c u, w = c :: u ∧ p c = true

/-- Every match ends with such a letter. -/
def Ends (r : Regex β) (p : β → Bool) : Prop := ∀ w, r.Matches w → ∃ u c, w = u ++ [c] ∧ p c = true

/-- No part of the expression takes the letter. -/
def avoids (x : β) : Regex β → Bool
  | .empty => true
  | .letter p => ! p x
  | .cat r s | .alt r s => avoids x r && avoids x s
  | .rep r _ _ => avoids x r

variable {r s : Regex β} {p q : β → Bool} {x c : β} {t u w rest : List β} {prev : Option β}
  {least most : ℕ}

lemma begins_letter (h : ∀ c, q c = true → p c = true) : (letter q).Begins p := by
  rintro w ⟨c, rfl, hc⟩
  exact ⟨c, [], rfl, h c hc⟩

lemma Begins.cat (h : r.Begins p) (s : Regex β) : (cat r s).Begins p := by
  rintro _ ⟨u, v, rfl, hu, -⟩
  obtain ⟨c, u, rfl, hc⟩ := h _ hu
  exact ⟨c, u ++ v, rfl, hc⟩

lemma Begins.alt (hr : r.Begins p) (hs : s.Begins p) : (alt r s).Begins p := by
  rintro w (hw | hw)
  · exact hr w hw
  · exact hs w hw

lemma ends_letter (h : ∀ c, q c = true → p c = true) : (letter q).Ends p := by
  rintro w ⟨c, rfl, hc⟩
  exact ⟨[], c, rfl, h c hc⟩

lemma Ends.cat (r : Regex β) (h : s.Ends p) : (cat r s).Ends p := by
  rintro _ ⟨u, v, rfl, -, hv⟩
  obtain ⟨v, c, rfl, hc⟩ := h _ hv
  exact ⟨u ++ v, c, (List.append_assoc ..).symm, hc⟩

lemma Ends.alt (hr : r.Ends p) (hs : s.Ends p) : (alt r s).Ends p := by
  rintro w (hw | hw)
  · exact hr w hw
  · exact hs w hw

lemma Ends.rep (h : r.Ends p) (hleast : 0 < least) : (rep r least most).Ends p := by
  rintro _ ⟨us, hle, -, hall, rfl⟩
  rcases List.eq_nil_or_concat us with rfl | ⟨us, u, rfl⟩
  · exact absurd (Nat.lt_of_lt_of_le hleast hle) (Nat.lt_irrefl 0)
  · obtain ⟨u, c, rfl, hc⟩ := h u (hall u (by simp))
    exact ⟨us.flatten ++ u, c, by simp, hc⟩

/-- A letter that no part of the expression takes is in no match. -/
lemma notMem_of_avoids (h : r.avoids x = true) (hw : r.Matches w) : x ∉ w := by
  induction r generalizing w with
  | empty =>
    rw [show w = [] from hw]
    exact List.not_mem_nil
  | letter p =>
    obtain ⟨c, rfl, hc⟩ := hw
    rw [List.mem_singleton]
    rintro rfl
    rw [avoids, hc] at h
    cases h
  | cat r s ihr ihs =>
    obtain ⟨hr, hs⟩ := Bool.and_eq_true_iff.1 h
    obtain ⟨u, v, rfl, hu, hv⟩ := hw
    rw [List.mem_append]
    exact not_or.2 ⟨ihr hr hu, ihs hs hv⟩
  | alt r s ihr ihs =>
    obtain ⟨hr, hs⟩ := Bool.and_eq_true_iff.1 h
    rcases hw with hw | hw
    · exact ihr hr hw
    · exact ihs hs hw
  | rep r least most ih =>
    obtain ⟨us, -, -, hall, rfl⟩ := hw
    rw [List.mem_flatten]
    rintro ⟨u, hu, hx⟩
    exact ih h (hall u hu) hx

/-! ### Word boundaries -/

variable (r) (isWord : β → Bool)

/-- A letter of a word is on one side only. -/
def boundary (prev : Option β) (t : List β) : Bool := prev.any isWord != t.head?.any isWord

/-- What the preferred match at the beginning of a text leaves of it, if there is a word boundary in
front and behind. -/
def wholeEnd (prev : Option β) (t : List β) : Option (List β) :=
  if boundary isWord prev t then
    (r.ends t).find? fun rest =>
      boundary isWord ((t.take (t.length - rest.length)).getLast?.or prev) rest
  else none

/-- The leftmost match between word boundaries, with what is in front of it and behind it. -/
def searchWhole (prev : Option β) (t : List β) : Option (List β × List β × List β) :=
  match wholeEnd r isWord prev t with
  | some rest => some ([], t.take (t.length - rest.length), rest)
  | none =>
      match t with
      | [] => none
      | c :: t => (searchWhole (some c) t).map fun found => (c :: found.1, found.2)

/-- A match at the beginning of a text. -/
def WholeAt (prev : Option β) (t : List β) : Prop :=
  boundary isWord prev t = true ∧
    ∃ w rest, t = w ++ rest ∧ r.Matches w ∧ boundary isWord (w.getLast?.or prev) rest = true

variable {r isWord}

lemma take_length_sub (w rest : List β) :
    (w ++ rest).take ((w ++ rest).length - rest.length) = w := by
  rw [List.length_append, Nat.add_sub_cancel, List.take_left]

lemma wholeEnd_eq_some (h : wholeEnd r isWord prev t = some rest) :
    boundary isWord prev t = true ∧ ∃ w, t = w ++ rest ∧ r.Matches w ∧
      boundary isWord (w.getLast?.or prev) rest = true := by
  rw [wholeEnd] at h
  split_ifs at h with hfront
  obtain ⟨w, rfl, hw⟩ := mem_ends.1 (List.mem_of_find?_eq_some h)
  have hback := List.find?_some h
  rw [take_length_sub] at hback
  exact ⟨hfront, w, rfl, hw, hback⟩

lemma wholeEnd_eq_none : wholeEnd r isWord prev t = none ↔ ¬ WholeAt r isWord prev t := by
  rw [wholeEnd]
  split_ifs with hfront
  · rw [List.find?_eq_none]
    constructor
    · rintro hnone ⟨-, w, rest, rfl, hw, hback⟩
      refine hnone rest (mem_ends.2 ⟨w, rfl, hw⟩) ?_
      rwa [take_length_sub]
    · rintro hnot rest hrest hback
      obtain ⟨w, rfl, hw⟩ := mem_ends.1 hrest
      rw [take_length_sub] at hback
      exact hnot ⟨hfront, w, rest, rfl, hw, hback⟩
  · exact iff_of_true rfl fun h => hfront h.1

/-- The letter in front of what follows a text. -/
lemma getLast?_cons_or (c : β) (u : List β) (prev : Option β) :
    (c :: u).getLast?.or prev = u.getLast?.or (some c) := by
  rw [List.getLast?_cons]
  cases u.getLast? <;> rfl

/-- A search that finds nothing: there is no match anywhere. -/
lemma searchWhole_eq_none : searchWhole r isWord prev t = none ↔
    ∀ u v, t = u ++ v → ¬ WholeAt r isWord (u.getLast?.or prev) v := by
  induction t generalizing prev with
  | nil =>
    rw [searchWhole]
    constructor
    · intro h u v hnil
      obtain ⟨rfl, rfl⟩ := List.append_eq_nil_iff.1 hnil.symm
      refine wholeEnd_eq_none.1 ?_
      rw [List.getLast?_nil, Option.none_or]
      cases hend : wholeEnd r isWord prev ([] : List β) with
      | none => rfl
      | some rest =>
        rw [hend] at h
        cases h
    · intro h
      have hend : wholeEnd r isWord prev [] = none := wholeEnd_eq_none.2 (h [] [] rfl)
      rw [hend]
  | cons c t ih =>
    rw [searchWhole]
    constructor
    · intro h u v heq
      cases hend : wholeEnd r isWord prev (c :: t) with
      | some rest =>
        rw [hend] at h
        cases h
      | none =>
        rw [hend] at h
        cases u with
        | nil =>
          obtain rfl : c :: t = v := heq
          exact wholeEnd_eq_none.1 hend
        | cons b u =>
          obtain ⟨rfl, rfl⟩ := List.cons.inj heq
          rw [getLast?_cons_or]
          exact ih.1 (Option.map_eq_none_iff.1 h) u v rfl
    · intro h
      have hend : wholeEnd r isWord prev (c :: t) = none := wholeEnd_eq_none.2 (h [] (c :: t) rfl)
      rw [hend]
      refine Option.map_eq_none_iff.2 (ih.2 fun u v heq => ?_)
      rw [← getLast?_cons_or c u prev]
      exact h (c :: u) v (by rw [heq]; rfl)

/-- A search that finds a match: there is none that begins in front of it. -/
lemma searchWhole_eq_some {found : List β × List β × List β}
    (h : searchWhole r isWord prev t = some found) :
    t = found.1 ++ (found.2.1 ++ found.2.2) ∧ r.Matches found.2.1 ∧
      boundary isWord (found.2.1.getLast?.or (found.1.getLast?.or prev)) found.2.2 = true ∧
      ∀ u v, found.1 = u ++ v → v ≠ [] →
        ¬ WholeAt r isWord (u.getLast?.or prev) (v ++ (found.2.1 ++ found.2.2)) := by
  induction t generalizing prev found with
  | nil =>
    rw [searchWhole] at h
    cases hend : wholeEnd r isWord prev ([] : List β) with
    | none =>
      rw [hend] at h
      cases h
    | some rest =>
      rw [hend] at h
      obtain ⟨-, w, hnil, hw, hback⟩ := wholeEnd_eq_some hend
      obtain ⟨rfl, rfl⟩ := List.append_eq_nil_iff.1 hnil.symm
      obtain rfl := Option.some.inj h
      refine ⟨rfl, hw, hback, fun u v heq hne => ?_⟩
      exact absurd (List.append_eq_nil_iff.1 heq.symm).2 hne
  | cons c t ih =>
    rw [searchWhole] at h
    cases hend : wholeEnd r isWord prev (c :: t) with
    | some rest =>
      rw [hend] at h
      obtain ⟨-, w, heq, hw, hback⟩ := wholeEnd_eq_some hend
      obtain rfl := Option.some.inj h
      have htake : (c :: t).take ((c :: t).length - rest.length) = w := by
        rw [heq, take_length_sub]
      dsimp only
      rw [htake]
      refine ⟨heq, hw, hback, fun u v heq hne => ?_⟩
      exact absurd (List.append_eq_nil_iff.1 heq.symm).2 hne
    | none =>
      rw [hend] at h
      obtain ⟨inner, hinner, rfl⟩ := Option.map_eq_some_iff.1 h
      obtain ⟨rfl, hw, hback, hnot⟩ := ih hinner
      refine ⟨rfl, hw, ?_, fun u v heq hne => ?_⟩
      · rw [getLast?_cons_or]
        exact hback
      · cases u with
        | nil =>
          obtain rfl : c :: inner.1 = v := heq
          exact wholeEnd_eq_none.1 hend
        | cons b u =>
          obtain ⟨rfl, htail⟩ := List.cons.inj heq
          rw [getLast?_cons_or]
          exact hnot u v htail hne

/-! ### Masking -/

variable (r isWord) (x)

/-- The matches are replaced by marks, in `n` turns at most, and whether there was one.  Every
search begins behind the last match. -/
def maskWhole : ℕ → List β → List β × Bool
  | 0, t => (t, false)
  | n + 1, t =>
      match searchWhole r isWord none t with
      | none => (t, false)
      | some found =>
          (found.1 ++ (List.replicate found.2.1.length x ++ (maskWhole n found.2.2).1), true)

/-- The matches that are found one after the other, each with what is in front of it, and what is
behind the last one. -/
def foundWhole : ℕ → List β → List (List β × List β) × List β
  | 0, t => ([], t)
  | n + 1, t =>
      match searchWhole r isWord none t with
      | none => ([], t)
      | some found =>
          ((found.1, found.2.1) :: (foundWhole n found.2.2).1, (foundWhole n found.2.2).2)

/-- The mark is a letter of words and in no match, and the matches begin and end with letters of
words. -/
structure Maskable : Prop where
  mark : isWord x = true
  begins : r.Begins isWord
  ends : r.Ends isWord
  avoids : r.avoids x = true

variable {r isWord x} {n : ℕ}

/-- A match begins with a letter of a word, with none in front of it. -/
lemma WholeAt.head (h : Maskable r x isWord) (hat : WholeAt r isWord prev t) :
    t.head?.any isWord = true ∧ prev.any isWord = false := by
  obtain ⟨hfront, w, rest, rfl, hw, -⟩ := hat
  obtain ⟨c, u, rfl, hc⟩ := h.begins w hw
  have hhead : ((c :: u ++ rest).head?).any isWord = true := hc
  rw [boundary, hhead] at hfront
  refine ⟨hhead, ?_⟩
  cases hprev : prev.any isWord with
  | false => rfl
  | true =>
    rw [hprev] at hfront
    cases hfront

/-- Behind a match there is no letter of a word. -/
lemma head_rest (h : Maskable r x isWord) (hw : r.Matches w)
    (hback : boundary isWord (w.getLast?.or prev) rest = true) : rest.head?.any isWord = false := by
  obtain ⟨u, c, rfl, hc⟩ := h.ends w hw
  rw [List.getLast?_concat, Option.some_or, boundary, Option.any_some, hc] at hback
  cases hrest : rest.head?.any isWord with
  | false => rfl
  | true =>
    rw [hrest] at hback
    cases hback

/-- A search that finds nothing finds nothing behind a mark either, if no word begins there. -/
lemma searchWhole_eq_none_of_mark (h : Maskable r x isWord) (ht : t.head?.any isWord = false)
    (hnone : searchWhole r isWord none t = none) : searchWhole r isWord (some x) t = none := by
  rw [searchWhole_eq_none] at hnone ⊢
  intro u v heq hat
  cases u with
  | nil =>
    obtain rfl : t = v := heq
    rw [(hat.head h).1] at ht
    cases ht
  | cons c u =>
    refine hnone (c :: u) v heq ?_
    rwa [getLast?_cons_or] at hat ⊢

lemma not_wholeAt_mark (h : Maskable r x isWord) : ¬ WholeAt r isWord prev (x :: t) := by
  rintro ⟨-, w, rest', hw, hmatch, -⟩
  obtain ⟨d, u, rfl, -⟩ := h.begins w hmatch
  obtain ⟨rfl, -⟩ := List.cons.inj hw
  exact notMem_of_avoids h.avoids hmatch List.mem_cons_self

/-- Marks between two texts: no match begins in front of them that was not there, and none begins at
one of them. -/
lemma searchWhole_marks (h : Maskable r x isWord) {k : ℕ} (hk : 0 < k) {y : List β}
    (hfront : ∀ u v, t = u ++ v → v ≠ [] → ¬ WholeAt r isWord (u.getLast?.or prev) (v ++ y))
    (hrest : searchWhole r isWord (some x) rest = none) :
    searchWhole r isWord prev (t ++ (List.replicate k x ++ rest)) = none := by
  rw [searchWhole_eq_none] at hrest ⊢
  intro u v heq hat
  obtain ⟨k, rfl⟩ := Nat.exists_eq_add_one.2 hk
  rcases List.append_eq_append_iff.1 heq with ⟨a, rfl, ha⟩ | ⟨v₁, rfl, rfl⟩
  · rcases List.append_eq_append_iff.1 ha with ⟨b, rfl, rfl⟩ | ⟨b, hb, rfl⟩
    · -- behind the marks
      refine hrest b v rfl ?_
      rw [List.replicate_succ', List.getLast?_append, List.getLast?_append,
        List.getLast?_concat] at hat
      cases hlast : b.getLast? with
      | none =>
        rw [hlast] at hat
        exact hat
      | some d =>
        rw [hlast] at hat
        exact hat
    · cases b with
      | nil =>
        -- right behind the marks
        rw [List.append_nil] at hb
        refine hrest [] rest rfl ?_
        rw [← hb, List.replicate_succ', List.getLast?_append, List.getLast?_concat] at hat
        exact hat
      | cons c b =>
        -- at a mark
        obtain rfl : c = x := List.eq_of_mem_replicate (n := k + 1) (by rw [hb]; simp)
        exact not_wholeAt_mark h hat
  · -- in front of the marks, where a match ends in front of them
    cases v₁ with
    | nil => exact not_wholeAt_mark h hat
    | cons c v =>
      refine hfront u (c :: v) rfl (List.cons_ne_nil c v) ?_
      obtain ⟨hboundary, w, rest', hw, hmatch, hback⟩ := hat
      have hhead := head_rest h hmatch hback
      rcases List.append_eq_append_iff.1 hw with ⟨a, rfl, ha⟩ | ⟨a, ha, rfl⟩
      · -- the match would have a mark, or end at one
        exfalso
        cases a with
        | nil =>
          rw [List.nil_append] at ha
          rw [← ha, List.replicate_succ, List.cons_append, List.head?_cons, Option.any_some,
            h.mark] at hhead
          cases hhead
        | cons d a =>
          obtain ⟨rfl, -⟩ := List.cons.inj ha
          exact notMem_of_avoids h.avoids hmatch (by simp)
      · rw [ha] at hboundary ⊢
        refine ⟨?_, w, a ++ y, List.append_assoc .., hmatch, ?_⟩
        · obtain ⟨d, w, rfl, -⟩ := h.begins w hmatch
          exact hboundary
        · cases a with
          | nil =>
            rw [List.nil_append, List.replicate_succ, List.cons_append, List.head?_cons,
              Option.any_some, h.mark] at hhead
            cases hhead
          | cons d a => exact hback

lemma searchWhole_nil (h : Maskable r x isWord) (prev : Option β) :
    searchWhole r isWord prev [] = none := by
  rw [searchWhole_eq_none]
  intro u v heq hat
  obtain ⟨-, rfl⟩ := List.append_eq_nil_iff.1 heq.symm
  cases (hat.head h).1

lemma Maskable.length_pos (h : Maskable r x isWord) (hw : r.Matches w) : 0 < w.length := by
  obtain ⟨c, u, rfl, -⟩ := h.begins w hw
  exact Nat.succ_pos _

/-- What is behind a match is shorter than the text. -/
lemma length_rest_lt (h : Maskable r x isWord) {found : List β × List β × List β}
    (hfound : searchWhole r isWord prev t = some found) : found.2.2.length < t.length := by
  obtain ⟨heq, hmatch, -⟩ := searchWhole_eq_some hfound
  have hpos := h.length_pos hmatch
  rw [heq, List.length_append, List.length_append]
  omega

/-- A search of the text with marks finds nothing. -/
theorem searchWhole_maskWhole (h : Maskable r x isWord) (hn : t.length ≤ n)
    (hprev : prev = none ∨ prev = some x ∧ t.head?.any isWord = false) :
    searchWhole r isWord prev (maskWhole r x isWord n t).1 = none := by
  induction n generalizing prev t with
  | zero =>
    obtain rfl := List.eq_nil_of_length_eq_zero (Nat.le_zero.1 hn)
    exact searchWhole_nil h prev
  | succ n ih =>
    rw [maskWhole]
    cases hfound : searchWhole r isWord none t with
    | none =>
      rcases hprev with rfl | ⟨rfl, ht⟩
      · exact hfound
      · exact searchWhole_eq_none_of_mark h ht hfound
    | some found =>
      obtain ⟨heq, hmatch, hback, hnot⟩ := searchWhole_eq_some hfound
      have hlength := length_rest_lt h hfound
      have hrest : searchWhole r isWord (some x) (maskWhole r x isWord n found.2.2).1 = none :=
        ih (by omega) (Or.inr ⟨rfl, head_rest h hmatch hback⟩)
      refine searchWhole_marks (y := found.2.1 ++ found.2.2) h (h.length_pos hmatch)
        (fun u v hsplit hne hat => ?_) hrest
      rcases hprev with rfl | ⟨rfl, ht⟩
      · exact hnot u v hsplit hne hat
      · cases u with
        | nil =>
          -- the text begins with a letter of a word then
          have hhead := (hat.head h).1
          obtain rfl : found.1 = v := hsplit
          rw [← heq, ht] at hhead
          cases hhead
        | cons c u =>
          refine hnot (c :: u) v hsplit hne ?_
          rwa [getLast?_cons_or] at hat ⊢

variable (r isWord x) in
/-- What is found makes up the text, and the marks are in its place. -/
theorem maskWhole_eq (n : ℕ) (t : List β) :
    t = (foundWhole r isWord n t).1.flatMap (fun p => p.1 ++ p.2) ++ (foundWhole r isWord n t).2 ∧
      (maskWhole r x isWord n t).1 =
        ((foundWhole r isWord n t).1.flatMap fun p => p.1 ++ List.replicate p.2.length x) ++
          (foundWhole r isWord n t).2 ∧
      ∀ p ∈ (foundWhole r isWord n t).1, r.Matches p.2 := by
  induction n generalizing t with
  | zero => exact ⟨rfl, rfl, fun p hp => absurd hp List.not_mem_nil⟩
  | succ n ih =>
    rw [foundWhole, maskWhole]
    cases hfound : searchWhole r isWord none t with
    | none => exact ⟨rfl, rfl, fun p hp => absurd hp List.not_mem_nil⟩
    | some found =>
      obtain ⟨heq, hmatch, -⟩ := searchWhole_eq_some hfound
      obtain ⟨htext, hmarks, hall⟩ := ih found.2.2
      dsimp only
      refine ⟨?_, ?_, List.forall_mem_cons.2 ⟨hmatch, hall⟩⟩
      · rw [List.flatMap_cons, List.append_assoc, ← htext, List.append_assoc]
        exact heq
      · rw [List.flatMap_cons, List.append_assoc, ← hmarks, List.append_assoc]

lemma length_maskWhole (n : ℕ) (t : List β) : (maskWhole r x isWord n t).1.length = t.length := by
  obtain ⟨htext, hmarks, -⟩ := maskWhole_eq r x isWord n t
  rw [hmarks]
  conv_rhs => rw [htext]
  simp only [List.length_append, List.length_flatMap, List.length_replicate]

/-- Whether there was a match. -/
lemma maskWhole_snd (h : Maskable r x isWord) (hn : t.length ≤ n) :
    (maskWhole r x isWord n t).2 = (searchWhole r isWord none t).isSome := by
  cases n with
  | zero =>
    obtain rfl := List.eq_nil_of_length_eq_zero (Nat.le_zero.1 hn)
    rw [searchWhole_nil h]
    rfl
  | succ n =>
    rw [maskWhole]
    cases searchWhole r isWord none t <;> rfl

/-- A text in which nothing is found stays as it is. -/
lemma maskWhole_eq_self (hnone : searchWhole r isWord none t = none) (n : ℕ) :
    maskWhole r x isWord n t = (t, false) := by
  cases n with
  | zero => rfl
  | succ n => rw [maskWhole, hnone]

end Regex

end PionCore.Lib
