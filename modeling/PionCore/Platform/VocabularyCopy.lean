/-
# Copies of a vocabulary

A copy adds the terms of the table one after the other, except for those that have been removed.
The term objects that another type has replaced still have their references: the copy gets them,
and then refuses the term that has replaced them.
-/
import PionCore.Platform.VocabularyTable

namespace PionCore.Platform

open PionCore.Lib

namespace Vocabulary

/-- One round of the loop of `operator+=`; an exception of `addTerm` is swallowed. -/
def copyTerm (v : Vocabulary) (t : Term) : Vocabulary :=
  if t.termRef ≠ 0 then (v.addTerm t).toOption.getD v else v

/-- `operator+=`. -/
def incorporate (v source : Vocabulary) : Vocabulary :=
  (List.range source.numTerms).foldl (fun w n => w.copyTerm (source.get (n + 1))) v

/-- The copy constructor. -/
def copy (source : Vocabulary) : Vocabulary := incorporate {} source

/-- The definition of an identifier: the type, the size, the format and the comment. -/
def definition (v : Vocabulary) (termId : Bytes) : Option (DataType × ℕ × Bytes × Bytes) :=
  (v.findUri termId).map fun e =>
    ((v.get e.2).termType, (v.get e.2).termSize, (v.get e.2).termFormat, (v.get e.2).termComment)

/-- The identifiers of the copy are those of the source, with the same definitions and the same
references. -/
def CopiedTo (source copied : Vocabulary) : Prop :=
  (∀ termId, copied.definition termId = source.definition termId) ∧
  ∀ termId, (source.findUri termId).isSome → copied.findTerm termId = source.findTerm termId

/-- The table has no term that another type has replaced, and no term behind a removed one, and a
`char` has a size. -/
structure Compact (v : Vocabulary) : Prop where
  current : ∀ n, n ≠ 0 → n < v.refMap.length → (v.get n).termRef ≠ 0 →
    v.findTerm (v.get n).termId = n
  first : ∀ m n, m ≠ 0 → m < n → n < v.refMap.length → (v.get n).termRef ≠ 0 →
    (v.get m).termRef ≠ 0
  char : ∀ n, (v.get n).termRef ≠ 0 → (v.get n).termType = .char → (v.get n).termSize ≠ 0

variable {v source : Vocabulary}

/-- The copy of the positions up to `n`. -/
def copyUpTo (source : Vocabulary) (n : ℕ) : Vocabulary :=
  (List.range n).foldl (fun w n => w.copyTerm (source.get (n + 1))) {}

lemma copyUpTo_succ (source : Vocabulary) (n : ℕ) :
    copyUpTo source (n + 1) = (copyUpTo source n).copyTerm (source.get (n + 1)) := by
  rw [copyUpTo, List.range_succ, List.foldl_append]
  rfl

/-- A round changes nothing, or puts a term behind the table. -/
lemma copyTerm_cases (t : Term) :
    (t.termRef = 0 ∧ v.copyTerm t = v) ∨
    (t.termRef ≠ 0 ∧ v.copyTerm t = v ∧ (t.termId = [] ∨ (v.findUri t.termId).isSome)) ∨
    (t.termRef ≠ 0 ∧ t.termId ≠ [] ∧ v.findUri t.termId = none ∧ v.copyTerm t = v.push t) := by
  by_cases href : t.termRef = 0
  · left
    simp [copyTerm, href]
  · by_cases hid : t.termId = []
    · simp [copyTerm, href, hid, addTerm, Except.toOption]
    · cases hfind : v.findUri t.termId with
      | none =>
        right; right
        refine ⟨href, hid, rfl, ?_⟩
        rw [copyTerm, if_pos href, addTerm_ok hid hfind]
        rfl
      | some e => simp [copyTerm, href, hid, addTerm, hfind, Except.toOption]

lemma indexed_copyTerm (hv : Indexed v) (t : Term) : Indexed (v.copyTerm t) := by
  rw [copyTerm]
  split_ifs
  · exact hv.edit (.addTerm t)
  · exact hv

lemma indexed_copyUpTo (source : Vocabulary) (n : ℕ) : Indexed (copyUpTo source n) := by
  induction n with
  | zero => exact Indexed.start'
  | succ n ih => exact copyUpTo_succ source n ▸ indexed_copyTerm ih _

/-! ### What a copy loses -/

/-- An identifier that the copy has keeps its reference in the next round. -/
lemma findUri_copyTerm {t : Term} {termId : Bytes} {e : Bytes × ℕ}
    (hfind : v.findUri termId = some e) : (v.copyTerm t).findUri termId = some e := by
  rcases copyTerm_cases t with ⟨-, hsame⟩ | ⟨-, hsame, -⟩ | ⟨-, -, hnew, hpush⟩
  · rwa [hsame]
  · rwa [hsame]
  · rw [hpush, findUri_push, if_neg, hfind]
    rintro rfl
    exact absurd (hnew.symm.trans hfind) (by simp)

lemma findUri_copyUpTo_mono {m n : ℕ} (hle : m ≤ n) {termId : Bytes} {e : Bytes × ℕ}
    (hfind : (copyUpTo source m).findUri termId = some e) :
    (copyUpTo source n).findUri termId = some e := by
  induction n, hle using Nat.le_induction with
  | base => exact hfind
  | succ n hle ih =>
    rw [copyUpTo_succ]
    exact findUri_copyTerm ih

/-- Behind `n` positions, the table of the copy has no more than `n` terms, and less if one of
them has been removed. -/
lemma length_copyUpTo_le (source : Vocabulary) (n : ℕ) :
    (copyUpTo source n).refMap.length ≤ n + 1 := by
  induction n with
  | zero => exact le_rfl
  | succ n ih =>
    rw [copyUpTo_succ]
    rcases copyTerm_cases (source.get (n + 1)) with
      ⟨-, hsame⟩ | ⟨-, hsame, -⟩ | ⟨-, -, -, hpush⟩
    · rw [hsame]
      omega
    · rw [hsame]
      omega
    · rw [hpush, push, List.length_append, List.length_singleton]
      omega

lemma length_copyUpTo_lt {m n : ℕ} (hm : m ≠ 0) (hle : m ≤ n)
    (hremoved : (source.get m).termRef = 0) : (copyUpTo source n).refMap.length ≤ n := by
  induction n, hle using Nat.le_induction with
  | base =>
    obtain ⟨k, rfl⟩ := Nat.exists_eq_succ_of_ne_zero hm
    have hsame : copyUpTo source (k + 1) = copyUpTo source k := by
      rw [copyUpTo_succ, copyTerm, if_neg (not_not.2 hremoved)]
    rw [Nat.succ_eq_add_one, hsame]
    exact length_copyUpTo_le source k
  | succ n hle ih =>
    rw [copyUpTo_succ]
    rcases copyTerm_cases (source.get (n + 1)) with
      ⟨-, hsame⟩ | ⟨-, hsame, -⟩ | ⟨-, -, -, hpush⟩
    · rw [hsame]
      omega
    · rw [hsame]
      omega
    · rw [hpush, push, List.length_append, List.length_singleton]
      omega

/-- The copy has the identifier of every position that has not been taken away. -/
lemma findUri_copyUpTo_self {n : ℕ} (hn : n ≠ 0) (hid : (source.get n).termId ≠ [])
    (href : (source.get n).termRef ≠ 0) :
    ((copyUpTo source n).findUri (source.get n).termId).isSome := by
  obtain ⟨k, rfl⟩ := Nat.exists_eq_succ_of_ne_zero hn
  rw [Nat.succ_eq_add_one, copyUpTo_succ]
  rcases copyTerm_cases (source.get (k + 1)) with
    ⟨hzero, -⟩ | ⟨-, hsame, hempty | hsome⟩ | ⟨-, -, -, hpush⟩
  · exact absurd hzero href
  · exact absurd hempty hid
  · rw [hsame]
    exact hsome
  · rw [hpush, findUri_push, if_pos rfl]
    rfl

/-- A `char` of the copy has a size. -/
lemma termSize_copyUpTo (source : Vocabulary) (n : ℕ) :
    ∀ t ∈ (copyUpTo source n).refMap, t.termType = .char → t.termSize ≠ 0 := by
  induction n with
  | zero =>
    intro t ht htype
    obtain rfl := List.mem_singleton.1 ht
    exact absurd htype (by decide)
  | succ n ih =>
    rw [copyUpTo_succ]
    rcases copyTerm_cases (source.get (n + 1)) with
      ⟨-, hsame⟩ | ⟨-, hsame, -⟩ | ⟨-, -, -, hpush⟩
    · rwa [hsame]
    · rwa [hsame]
    · rw [hpush]
      intro t ht htype
      rcases List.mem_append.1 ht with ht | ht
      · exact ih t ht htype
      · obtain rfl := List.mem_singleton.1 ht
        have hchar : (source.get (n + 1)).termType = .char := htype
        simp only [sizeOf, hchar, true_and]
        split_ifs with hsize
        · exact one_ne_zero
        · exact hsize

lemma copy_eq (hv : Indexed v) : v.copy = copyUpTo v (v.refMap.length - 1) := by
  rw [hv.length]
  rfl

lemma getElem?_get {n : ℕ} (hlt : n < v.refMap.length) : v.refMap[n]? = some (v.get n) := by
  rw [get, List.getElem?_eq_getElem hlt, Option.getD_some]

/-- What an identifier of the table has to have for the copy to keep its reference. -/
lemma CopiedTo.findTerm_le (hv : Indexed v) (h : CopiedTo v v.copy) {n : ℕ} (hn : n ≠ 0)
    (hlt : n < v.refMap.length) (href : (v.get n).termRef ≠ 0) :
    v.findTerm (v.get n).termId ≠ 0 ∧
      v.findTerm (v.get n).termId < (copyUpTo v n).refMap.length := by
  have hid := hv.named n _ hn (getElem?_get hlt)
  obtain ⟨e, hfind⟩ := Option.isSome_iff_exists.1 (findUri_copyUpTo_self hn hid href)
  have hcopy : v.copy.findUri (v.get n).termId = some e := by
    rw [copy_eq hv]
    exact findUri_copyUpTo_mono (by omega) hfind
  -- the source has the identifier too, as it has its definition
  have hlive : (v.findUri (v.get n).termId).isSome := by
    have hdef := h.1 (v.get n).termId
    rw [definition, hcopy, definition] at hdef
    cases hsource : v.findUri (v.get n).termId with
    | none =>
      rw [hsource] at hdef
      exact absurd hdef (by simp)
    | some _ => rfl
  have hsound := (indexed_copyUpTo v n).toSound
  have hterm : v.findTerm (v.get n).termId = e.2 := by
    rw [← h.2 _ hlive]
    have hw : Sound v.copy := copy_eq hv ▸ (indexed_copyUpTo v _).toSound
    exact hw.findTerm_eq hcopy
  rw [hterm]
  obtain ⟨hne, t, ht, -⟩ := hsound.entry e (mem_of_findUri hfind).1
  exact ⟨hne, (List.getElem?_eq_some_iff.1 ht).1⟩

lemma CopiedTo.current (hv : Indexed v) (h : CopiedTo v v.copy) {n : ℕ} (hn : n ≠ 0)
    (hlt : n < v.refMap.length) (href : (v.get n).termRef ≠ 0) :
    v.findTerm (v.get n).termId = n := by
  obtain ⟨hne, hbound⟩ := h.findTerm_le hv hn hlt href
  refine le_antisymm (Nat.lt_succ_iff.1 (hbound.trans_le (length_copyUpTo_le v n))) ?_
  -- the entry of an identifier is its last position
  have hentry := (mem_of_findUri (hv.findUri_of_findTerm hne)).1
  exact hv.last _ hentry n _ (getElem?_get hlt) rfl

/-- A reference that has not been taken away is a position of the table. -/
lemma Indexed.lt_of_termRef (hv : Indexed v) {n : ℕ} (href : (v.get n).termRef ≠ 0) :
    n ≠ 0 ∧ n < v.refMap.length := by
  constructor
  · rintro rfl
    rw [get, hv.start] at href
    exact href rfl
  · by_contra hle
    rw [get, List.getElem?_eq_none (not_lt.1 hle)] at href
    exact href rfl

lemma CopiedTo.compact (hv : Indexed v) (h : CopiedTo v v.copy) : Compact v where
  current := fun n hn hlt href => h.current hv hn hlt href
  first := by
    intro m n hm hmn hlt href hremoved
    have hn : n ≠ 0 := by omega
    obtain ⟨-, hbound⟩ := h.findTerm_le hv hn hlt href
    rw [h.current hv hn hlt href] at hbound
    exact absurd (hbound.trans_le (length_copyUpTo_lt hm hmn.le hremoved)) (lt_irrefl n)
  char := by
    intro n href htype hsize
    obtain ⟨hn, hlt⟩ := hv.lt_of_termRef href
    have hcurrent := h.current hv hn hlt href
    have hfind := hv.findUri_of_findTerm (show v.findTerm (v.get n).termId ≠ 0 by rwa [hcurrent])
    have hdef := h.1 (v.get n).termId
    simp only [definition, hfind, hcurrent, Option.map_some] at hdef
    obtain ⟨e, he, hpair⟩ := Option.map_eq_some_iff.1 hdef
    simp only [Prod.mk.injEq] at hpair
    have hw : Indexed v.copy := copy_eq hv ▸ indexed_copyUpTo v _
    obtain ⟨-, t, ht, -⟩ := hw.entry e (mem_of_findUri he).1
    have hget : v.copy.get e.2 = t := by rw [get, ht, Option.getD_some]
    rw [hget] at hpair
    have hmem : t ∈ (copyUpTo v (v.refMap.length - 1)).refMap :=
      copy_eq hv ▸ List.mem_of_getElem? ht
    exact termSize_copyUpTo v _ t hmem (hpair.1.trans htype) (hpair.2.1.trans hsize)

/-! ### What a copy keeps -/

/-- What the copy of the positions up to `n` is, if the table is compact. -/
structure CopiedUpTo (v : Vocabulary) (n : ℕ) : Prop where
  find : ∀ termId, (copyUpTo v n).findUri termId = (v.findUri termId).filter fun e => e.2 ≤ n
  same : ∀ m, m ≤ n → (v.get m).termRef ≠ 0 → (copyUpTo v n).get m = v.get m
  full : (∀ m, m ≠ 0 → m ≤ n → (v.get m).termRef ≠ 0) → (copyUpTo v n).refMap.length = n + 1

lemma copiedUpTo_zero (hv : Indexed v) : CopiedUpTo v 0 where
  find := by
    intro termId
    cases hfind : v.findUri termId with
    | none => rfl
    | some e =>
      have hne := (hv.entry e (mem_of_findUri hfind).1).1
      rw [Option.filter_some, if_neg (by simpa using hne)]
      rfl
  same := by
    intro m hm href
    exact absurd (Nat.le_zero.1 hm) (hv.lt_of_termRef href).1
  full := fun _ => rfl

lemma filter_succ {o : Option (Bytes × ℕ)} {n : ℕ} (h : ∀ e ∈ o, e.2 ≠ n + 1) :
    (o.filter fun e => e.2 ≤ n + 1) = o.filter fun e => e.2 ≤ n := by
  cases o with
  | none => rfl
  | some e =>
    have hne := h e rfl
    have hiff : e.2 ≤ n + 1 ↔ e.2 ≤ n := by omega
    simp only [Option.filter_some, hiff]

/-- A removed term is not copied, and no identifier has its reference. -/
lemma CopiedUpTo.removed (hv : Indexed v) {n : ℕ} (h : CopiedUpTo v n)
    (hzero : (v.get (n + 1)).termRef = 0) : CopiedUpTo v (n + 1) := by
  have hsame : copyUpTo v (n + 1) = copyUpTo v n := by
    rw [copyUpTo_succ, copyTerm, if_neg (not_not.2 hzero)]
  refine ⟨?_, ?_, ?_⟩
  · intro termId
    rw [hsame, h.find, filter_succ]
    intro e he hpos
    obtain ⟨-, t, ht, -, href⟩ := hv.entry e (mem_of_findUri he).1
    rw [hpos] at ht href
    rw [get, ht, Option.getD_some, href] at hzero
    exact absurd hzero (Nat.succ_ne_zero n)
  · intro m hm href
    rw [hsame]
    have hne : m ≠ n + 1 := by
      rintro rfl
      exact href hzero
    exact h.same m (by omega) href
  · exact fun hfull => absurd hzero (hfull (n + 1) (Nat.succ_ne_zero n) le_rfl)

lemma renumbered_self {t : Term} {n : ℕ} (hpos : t.termRef = n) (hsize : sizeOf t = t.termSize) :
    { t with termRef := n, termSize := sizeOf t } = t := by
  rw [hsize, ← hpos]

/-- The next term is put behind the table of the copy, at its own position. -/
lemma CopiedUpTo.push (hv : Indexed v) (hc : Compact v) {n : ℕ} (h : CopiedUpTo v n)
    (hlt : n + 1 < v.refMap.length) (href : (v.get (n + 1)).termRef ≠ 0) :
    CopiedUpTo v (n + 1) := by
  have ht := getElem?_get hlt
  have hid := hv.named _ _ (Nat.succ_ne_zero n) ht
  have hcurrent := hc.current _ (Nat.succ_ne_zero n) hlt href
  have hfind := hv.findUri_of_findTerm
    (show v.findTerm (v.get (n + 1)).termId ≠ 0 by rw [hcurrent]; simp)
  rw [hcurrent] at hfind
  have hlen : (copyUpTo v n).refMap.length = n + 1 :=
    h.full fun m hm hle => hc.first m (n + 1) hm (by omega) hlt href
  have hnew : (copyUpTo v n).findUri (v.get (n + 1)).termId = none := by
    rw [h.find, hfind, Option.filter_some, if_neg (by simp)]
  have hnum : (copyUpTo v n).numTerms = n := by
    have := (indexed_copyUpTo v n).length
    omega
  have hstep : copyUpTo v (n + 1) = (copyUpTo v n).push (v.get (n + 1)) := by
    rw [copyUpTo_succ, copyTerm, if_pos href, addTerm_ok hid hnew]
    rfl
  refine ⟨?_, ?_, ?_⟩
  · intro termId
    rw [hstep, findUri_push, hlen]
    split_ifs with heq
    · rw [← heq, hfind, Option.filter_some, if_pos (by simp)]
    · rw [h.find, filter_succ]
      intro e he hpos
      -- the entry of another identifier is at another position
      obtain ⟨hmem, rfl⟩ := mem_of_findUri he
      obtain ⟨-, t, ht', hid', -⟩ := hv.entry e hmem
      rw [hpos, ht] at ht'
      exact heq ((congrArg Term.termId (Option.some.inj ht')).trans hid')
  · intro m hm hm'
    rcases Nat.lt_or_eq_of_le hm with hlt' | rfl
    · rw [hstep, get, Vocabulary.push, List.getElem?_append_left (by omega)]
      exact h.same m (by omega) hm'
    · -- the reference and the size of the term are those of the copy already
      have hpos : (v.get (n + 1)).termRef = n + 1 := (hv.position _ _ ht).resolve_right href
      have hsize : sizeOf (v.get (n + 1)) = (v.get (n + 1)).termSize :=
        if_neg fun hchar => hc.char _ href hchar.1 hchar.2
      rw [hstep, get, Vocabulary.push, List.getElem?_append_right (by omega), hlen, hnum,
        Nat.sub_self, renumbered_self hpos hsize]
      rfl
  · intro _
    rw [hstep, Vocabulary.push, List.length_append, hlen]
    rfl

lemma copiedUpTo (hv : Indexed v) (hc : Compact v) {n : ℕ} (hn : n < v.refMap.length) :
    CopiedUpTo v n := by
  induction n with
  | zero => exact copiedUpTo_zero hv
  | succ n ih =>
    have h := ih (by omega)
    by_cases href : (v.get (n + 1)).termRef = 0
    · exact h.removed hv href
    · exact h.push hv hc hn href

lemma Compact.copiedTo (hv : Indexed v) (hc : Compact v) : CopiedTo v v.copy := by
  have hpos : v.refMap.length - 1 < v.refMap.length := by
    have := hv.length
    omega
  have h := copiedUpTo hv hc hpos
  have hfind : ∀ termId, v.copy.findUri termId = v.findUri termId := by
    intro termId
    rw [copy_eq hv, h.find]
    cases hsource : v.findUri termId with
    | none => rfl
    | some e =>
      obtain ⟨-, t, ht, -⟩ := hv.entry e (mem_of_findUri hsource).1
      have hlt := (List.getElem?_eq_some_iff.1 ht).1
      rw [Option.filter_some, if_pos (by simp; omega)]
  have hget : ∀ termId e, v.findUri termId = some e → v.copy.get e.2 = v.get e.2 := by
    intro termId e he
    obtain ⟨hne, t, ht, -, href⟩ := hv.entry e (mem_of_findUri he).1
    have hlt := (List.getElem?_eq_some_iff.1 ht).1
    rw [copy_eq hv]
    refine h.same e.2 (by omega) ?_
    rwa [get, ht, Option.getD_some, href]
  constructor
  · intro termId
    rw [definition, definition, hfind]
    cases hsource : v.findUri termId with
    | none => rfl
    | some e => rw [Option.map_some, Option.map_some, hget termId e hsource]
  · intro termId hlive
    obtain ⟨e, hsource⟩ := Option.isSome_iff_exists.1 hlive
    rw [findTerm, findTerm, hfind, hsource]
    exact congrArg Term.termRef (hget termId e hsource)

/-- A copy keeps the definitions and the references if and only if the table is compact. -/
theorem copy_faithful_iff (edits : List Edit) :
    CopiedTo (make edits) (make edits).copy ↔ Compact (make edits) :=
  ⟨fun h => h.compact (indexed_make edits), fun h => h.copiedTo (indexed_make edits)⟩

/-- A term gets another type: the copy has the old one. -/
theorem copy_of_other_type :
    ¬ CopiedTo
      (make [.addTerm { termId := ascii "a", termType := .int32 },
        .updateTerm { termId := ascii "a", termType := .string }])
      (make [.addTerm { termId := ascii "a", termType := .int32 },
        .updateTerm { termId := ascii "a", termType := .string }]).copy := by
  rintro ⟨hdef, -⟩
  have h := congrArg (Option.map Prod.fst) (hdef (ascii "a"))
  exact absurd h (by decide)

end Vocabulary

end PionCore.Platform
