/-
# The table of a vocabulary over its whole history

A reference is given away when an identifier comes to have it.  Events and codecs keep the
references that they have got, whatever is done to the vocabulary afterwards, so that a position
of the table has to stand for the same term for ever.
-/
import PionCore.Platform.Vocabulary

namespace PionCore.Platform

open PionCore.Lib

namespace Vocabulary

/-- The exception that a call throws. -/
def thrown (v : Vocabulary) : Edit → Option VocabularyError
  | .addTerm t =>
    match v.addTerm t with
    | .ok _ => none
    | .error exception => some exception
  | .removeTerm termId => (v.removeTerm termId).2
  | .updateTerm t => (v.updateTerm t).2

/-- What a call requires so as not to throw. -/
def Accepts (v : Vocabulary) : Edit → Prop
  | .addTerm t => t.termId ≠ [] ∧ v.findUri t.termId = none
  | .removeTerm termId => (v.findUri termId).isSome
  | .updateTerm t => (v.findUri t.termId).isSome

/-- A new term behind the table. -/
def push (v : Vocabulary) (t : Term) : Vocabulary :=
  { refMap := v.refMap ++ [{ t with termRef := v.numTerms + 1, termSize := sizeOf t }]
    uriMap := (t.termId, v.refMap.length) :: v.uriMap
    numTerms := v.numTerms + 1 }

/-- The changes of a term that keeps its type. -/
def adopt (t u : Term) : Term :=
  { u with termComment := t.termComment, termSize := t.termSize, termFormat := t.termFormat }

/-- Sound, with one entry for each identifier: its last position in the table.  The reference of
a term is its position, until it is taken away. -/
structure Indexed (v : Vocabulary) : Prop extends Sound v where
  nodup : (v.uriMap.map Prod.fst).Nodup
  start : v.refMap[0]? = some ({} : Term)
  named : ∀ n t, n ≠ 0 → v.refMap[n]? = some t → t.termId ≠ []
  position : ∀ n (t : Term), v.refMap[n]? = some t → t.termRef = n ∨ t.termRef = 0
  last : ∀ e ∈ v.uriMap, ∀ n t, v.refMap[n]? = some t → t.termId = e.1 → n ≤ e.2

variable {v w : Vocabulary}

/-! ### Entries -/

lemma findUri_cons (v : Vocabulary) (e : Bytes × ℕ) (termId : Bytes) :
    ({ v with uriMap := e :: v.uriMap } : Vocabulary).findUri termId =
      if e.1 = termId then some e else v.findUri termId := by
  rw [findUri, List.find?_cons]
  by_cases h : e.1 = termId
  · rw [if_pos h, beq_iff_eq.2 h]
  · rw [if_neg h, beq_false_of_ne h]
    rfl

lemma findUri_push (v : Vocabulary) (t : Term) (termId : Bytes) :
    (v.push t).findUri termId =
      if t.termId = termId then some (t.termId, v.refMap.length) else v.findUri termId :=
  findUri_cons v _ termId

lemma findUri_eraseUri (v : Vocabulary) (erased termId : Bytes) :
    (v.eraseUri erased).findUri termId =
      if erased = termId then none else v.findUri termId := by
  simp only [findUri, eraseUri, List.find?_filter]
  split_ifs with h
  · subst h
    rw [List.find?_eq_none]
    intro e _
    simp
  · congr 1
    funext e
    by_cases he : e.1 = termId
    · simp [he, Ne.symm h]
    · simp [he]

lemma findUri_eq_none {termId : Bytes} :
    v.findUri termId = none ↔ termId ∉ v.uriMap.map Prod.fst := by
  rw [findUri, List.find?_eq_none, List.mem_map]
  simp only [beq_iff_eq, not_exists, not_and]

/-- With one entry for each identifier, the entry that is found is the only one. -/
lemma findUri_eq_some (hnodup : (v.uriMap.map Prod.fst).Nodup) {e : Bytes × ℕ} :
    v.findUri e.1 = some e ↔ e ∈ v.uriMap := by
  constructor
  · exact fun h => (mem_of_findUri h).1
  · intro he
    cases hfind : v.findUri e.1 with
    | none => exact absurd (List.mem_map_of_mem he) (findUri_eq_none.1 hfind)
    | some e' =>
      obtain ⟨hmem, hkey⟩ := mem_of_findUri hfind
      rw [List.inj_on_of_nodup_map hnodup hmem he hkey]

/-- The reference that an identifier is found to have is its position. -/
lemma Sound.findTerm_eq (h : Sound v) {termId : Bytes} {e : Bytes × ℕ}
    (hfind : v.findUri termId = some e) : v.findTerm termId = e.2 := by
  obtain ⟨-, t, ht, -, hpos⟩ := h.entry e (mem_of_findUri hfind).1
  rw [findTerm, hfind]
  dsimp only
  rw [get, ht, Option.getD_some, hpos]

lemma Sound.findTerm_eq_zero (h : Sound v) {termId : Bytes} :
    v.findTerm termId = 0 ↔ v.findUri termId = none := by
  constructor
  · intro hzero
    cases hfind : v.findUri termId with
    | none => rfl
    | some e =>
      have hne := (h.entry e (mem_of_findUri hfind).1).1
      exact absurd ((h.findTerm_eq hfind).symm.trans hzero) hne
  · intro hfind
    rw [findTerm, hfind]

lemma Sound.findUri_of_findTerm (h : Sound v) {termId : Bytes} (hne : v.findTerm termId ≠ 0) :
    v.findUri termId = some (termId, v.findTerm termId) := by
  cases hfind : v.findUri termId with
  | none => exact absurd (h.findTerm_eq_zero.2 hfind) hne
  | some e =>
    obtain ⟨-, rfl⟩ := mem_of_findUri hfind
    rw [h.findTerm_eq hfind]

lemma Sound.findTerm_lt (h : Sound v) {termId : Bytes} (hne : v.findTerm termId ≠ 0) :
    v.findTerm termId < v.refMap.length := by
  obtain ⟨-, t, ht, -⟩ := h.entry _ (mem_of_findUri (h.findUri_of_findTerm hne)).1
  exact (List.getElem?_eq_some_iff.1 ht).1

/-! ### What a call does -/

lemma addTerm_ok {t : Term} (hid : t.termId ≠ []) (hnew : v.findUri t.termId = none) :
    v.addTerm t = .ok (v.push t) := by
  rw [addTerm, if_neg hid, hnew]
  rfl

lemma addTerm_eq_ok {t : Term} :
    v.addTerm t = .ok w ↔ t.termId ≠ [] ∧ v.findUri t.termId = none ∧ w = v.push t := by
  constructor
  · intro h
    rw [addTerm] at h
    split_ifs at h with hid hdup
    exact ⟨hid, by simpa using hdup, (Except.ok.inj h).symm⟩
  · rintro ⟨hid, hnew, rfl⟩
    exact addTerm_ok hid hnew

/-- A call throws and changes nothing, puts a new term behind the table, takes the reference of a
term away, changes a term in place, or puts a term of another type behind the table. -/
lemma edit_cases (h : Indexed v) (e : Edit) :
    (¬ v.Accepts e ∧ (∃ x, v.thrown e = some x) ∧ v.edit e = v) ∨
    (∃ t, e = .addTerm t ∧ t.termId ≠ [] ∧ v.findUri t.termId = none ∧ v.thrown e = none ∧
      v.edit e = v.push t) ∨
    (∃ termId r, e = .removeTerm termId ∧ v.findUri termId = some (termId, r) ∧
      v.thrown e = none ∧ v.edit e = { v with
        refMap := v.refMap.modify r fun t => { t with termRef := 0 }
        uriMap := v.uriMap.filter fun e => e.1 != termId }) ∨
    (∃ t r, e = .updateTerm t ∧ v.findUri t.termId = some (t.termId, r) ∧
      (v.get r).termType = t.termType ∧ v.thrown e = none ∧
      v.edit e = { v with refMap := v.refMap.modify r (adopt t) }) ∨
    (∃ t r, e = .updateTerm t ∧ v.findUri t.termId = some (t.termId, r) ∧
      (v.get r).termType ≠ t.termType ∧ t.termId ≠ [] ∧ v.thrown e = none ∧
      v.edit e = (v.eraseUri t.termId).push t) := by
  have hnamed : ∀ termId e, v.findUri termId = some e → termId ≠ [] := by
    intro termId e hfind
    obtain ⟨hmem, rfl⟩ := mem_of_findUri hfind
    obtain ⟨hne, t, ht, hid, -⟩ := h.entry e hmem
    exact hid ▸ h.named _ _ hne ht
  cases e with
  | addTerm t =>
    by_cases hid : t.termId = []
    · left
      simp [Accepts, thrown, edit, addTerm, hid, Except.toOption]
    · cases hfind : v.findUri t.termId with
      | none =>
        refine Or.inr (Or.inl ⟨t, rfl, hid, hfind, ?_, ?_⟩)
        · rw [thrown, addTerm_ok hid hfind]
        · rw [edit, addTerm_ok hid hfind]
          rfl
      | some e =>
        left
        simp [Accepts, thrown, edit, addTerm, hid, hfind, Except.toOption]
  | removeTerm termId =>
    cases hfind : v.findUri termId with
    | none =>
      left
      simp [Accepts, thrown, edit, removeTerm, hfind]
    | some e =>
      obtain ⟨-, rfl⟩ := mem_of_findUri hfind
      have hid := hnamed _ _ hfind
      refine Or.inr (Or.inr (Or.inl ⟨e.1, e.2, rfl, by rw [hfind], ?_, ?_⟩))
      · simp [thrown, removeTerm, hfind, hid]
      · simp [edit, removeTerm, hfind, hid, eraseUri]
  | updateTerm t =>
    cases hfind : v.findUri t.termId with
    | none =>
      left
      simp [Accepts, thrown, edit, updateTerm, hfind]
    | some e =>
      obtain ⟨-, hkey⟩ := mem_of_findUri hfind
      have hpair : e = (t.termId, e.2) := by rw [← hkey]
      have hid := hnamed _ _ hfind
      by_cases htype : (v.get e.2).termType = t.termType
      · refine Or.inr (Or.inr (Or.inr (Or.inl
          ⟨t, e.2, rfl, by rw [hfind, ← hpair], htype, ?_, ?_⟩)))
        · simp [thrown, updateTerm, hfind, hid, htype]
        · simp only [edit, updateTerm, hfind, hid, htype, if_false, if_true]
          rfl
      · -- without its entry, the identifier is new
        have hnew : (v.eraseUri t.termId).findUri t.termId = none := by simp [findUri_eraseUri]
        refine Or.inr (Or.inr (Or.inr (Or.inr
          ⟨t, e.2, rfl, by rw [hfind, ← hpair], htype, hid, ?_, ?_⟩)))
        · simp [thrown, updateTerm, hfind, hid, htype, addTerm_ok hid hnew]
        · simp [edit, updateTerm, hfind, hid, htype, addTerm_ok hid hnew]

/-- A call that throws changes nothing. -/
lemma edit_of_thrown (h : Indexed v) {e : Edit} {x : VocabularyError}
    (hx : v.thrown e = some x) : v.edit e = v := by
  rcases edit_cases h e with ⟨-, -, hsame⟩ | ⟨t, -, -, -, hnone, -⟩ | ⟨termId, r, -, -, hnone, -⟩ |
    ⟨t, r, -, -, -, hnone, -⟩ | ⟨t, r, -, -, -, -, hnone, -⟩
  · exact hsame
  all_goals exact absurd (hnone.symm.trans hx) (by simp)

lemma thrown_eq_none (h : Indexed v) {e : Edit} : v.thrown e = none ↔ v.Accepts e := by
  rcases edit_cases h e with ⟨hnot, ⟨x, hx⟩, -⟩ | ⟨t, rfl, hid, hfind, hnone, -⟩ |
    ⟨termId, r, rfl, hfind, hnone, -⟩ | ⟨t, r, rfl, hfind, -, hnone, -⟩ |
    ⟨t, r, rfl, hfind, -, -, hnone, -⟩
  · simp [hx, hnot]
  · simp [hnone, Accepts, hid, hfind]
  · simp [hnone, Accepts, hfind]
  · simp [hnone, Accepts, hfind]
  · simp [hnone, Accepts, hfind]

/-! ### The table is indexed -/

lemma Indexed.start' : Indexed {} where
  toSound := Sound.start
  nodup := List.nodup_nil
  start := rfl
  named := by
    intro n t hn ht
    rcases n with - | n
    · exact absurd rfl hn
    · simp at ht
  position := by
    intro n t ht
    rcases n with - | n
    · simp only [List.getElem?_cons_zero, Option.some.injEq] at ht
      exact Or.inl (ht ▸ rfl)
    · simp at ht
  last := by simp

lemma Indexed.eraseUri (h : Indexed v) (termId : Bytes) : Indexed (v.eraseUri termId) where
  toSound := h.toSound.eraseUri termId
  nodup := (List.filter_sublist.map _).nodup h.nodup
  start := h.start
  named := h.named
  position := h.position
  last := fun e he => h.last e (List.mem_of_mem_filter he)

/-- A position behind a new term is an old one, or that of the new term. -/
lemma getElem?_push {t u : Term} {n : ℕ} (hu : (v.push t).refMap[n]? = some u) :
    v.refMap[n]? = some u ∨
      n = v.refMap.length ∧ u = { t with termRef := v.numTerms + 1, termSize := sizeOf t } := by
  have hlt : n < (v.push t).refMap.length := (List.getElem?_eq_some_iff.1 hu).1
  rcases lt_or_eq_of_le (Nat.lt_succ_iff.1 (by simpa [Vocabulary.push] using hlt)) with hold | rfl
  · left
    rwa [Vocabulary.push, List.getElem?_append_left hold] at hu
  · right
    rw [Vocabulary.push, List.getElem?_concat_length] at hu
    exact ⟨rfl, (Option.some.inj hu).symm⟩

lemma Indexed.push (h : Indexed v) {t : Term} (hid : t.termId ≠ [])
    (hnew : v.findUri t.termId = none) : Indexed (v.push t) where
  toSound := h.toSound.addTerm (addTerm_ok hid hnew)
  nodup := List.nodup_cons.2 ⟨findUri_eq_none.1 hnew, h.nodup⟩
  start := by
    rw [Vocabulary.push, List.getElem?_append_left (by simp [h.length]), h.start]
  named := by
    intro n u hn hu
    rcases getElem?_push hu with hu | ⟨-, rfl⟩
    · exact h.named n u hn hu
    · exact hid
  position := by
    intro n u hu
    rcases getElem?_push hu with hu | ⟨rfl, rfl⟩
    · exact h.position n u hu
    · exact Or.inl h.length.symm
  last := by
    intro e he n u hu hid'
    rcases getElem?_push hu with hu | ⟨rfl, rfl⟩
    · rcases List.mem_cons.1 he with rfl | he
      · exact (List.getElem?_eq_some_iff.1 hu).1.le
      · exact h.last e he n u hu hid'
    · rcases List.mem_cons.1 he with rfl | he
      · exact le_rfl
      · -- no other entry has the identifier of the new term
        exact absurd (List.mem_map_of_mem (f := Prod.fst) he)
          (by rw [← hid']; exact findUri_eq_none.1 hnew)

lemma Indexed.modify (h : Indexed v) {i : ℕ} {f : Term → Term} (hi : i ≠ 0)
    (hf : ∀ t, (f t).termId = t.termId)
    (href : ∀ t, (f t).termRef = t.termRef ∨ (f t).termRef = 0)
    (hentry : ∀ e ∈ v.uriMap, e.2 = i → ∀ t, (f t).termRef = t.termRef) :
    Indexed { v with refMap := v.refMap.modify i f } where
  toSound := h.toSound.modify hf hentry
  nodup := h.nodup
  start := by
    dsimp only
    rw [List.getElem?_modify, h.start]
    simp [hi]
  named := by
    intro n u hn hu
    obtain ⟨t, ht, rfl⟩ := Option.map_eq_some_iff.1 ((List.getElem?_modify ..).symm.trans hu)
    split_ifs
    · exact hf t ▸ h.named n t hn ht
    · exact h.named n t hn ht
  position := by
    intro n u hu
    obtain ⟨t, ht, rfl⟩ := Option.map_eq_some_iff.1 ((List.getElem?_modify ..).symm.trans hu)
    split_ifs
    · rcases href t with hsame | hzero
      · exact hsame ▸ h.position n t ht
      · exact Or.inr hzero
    · exact h.position n t ht
  last := by
    intro e he n u hu hid
    obtain ⟨t, ht, rfl⟩ := Option.map_eq_some_iff.1 ((List.getElem?_modify ..).symm.trans hu)
    split_ifs at hid
    · exact h.last e he n t ht ((hf t).symm.trans hid)
    · exact h.last e he n t ht hid

lemma Indexed.edit (h : Indexed v) (e : Edit) : Indexed (v.edit e) := by
  rcases edit_cases h e with ⟨-, -, he⟩ | ⟨t, -, hid, hnew, -, he⟩ | ⟨termId, r, -, hfind, -, he⟩ |
    ⟨t, r, -, hfind, -, -, he⟩ | ⟨t, r, -, hfind, -, hid, -, he⟩
  · rw [he]
    exact h
  · rw [he]
    exact h.push hid hnew
  · rw [he]
    have hmem := (mem_of_findUri hfind).1
    refine (h.eraseUri termId).modify (h.entry _ hmem).1 (fun _ => rfl) (fun _ => Or.inr rfl) ?_
    intro e he' hr
    -- another entry with this position would have the same identifier
    obtain ⟨hmem', hne⟩ := List.mem_filter.1 he'
    obtain ⟨-, t, ht, hid, -⟩ := h.entry _ hmem
    obtain ⟨-, u, hu, hid', -⟩ := h.entry e hmem'
    rw [hr, ht] at hu
    obtain rfl := Option.some.inj hu
    exact absurd (hid'.symm.trans hid) (by simpa using hne)
  · rw [he]
    exact h.modify (h.entry _ (mem_of_findUri hfind).1).1 (fun _ => rfl) (fun _ => Or.inl rfl)
      fun _ _ _ _ => rfl
  · rw [he]
    exact (h.eraseUri t.termId).push hid (by simp [findUri_eraseUri])

lemma indexed_foldl (h : Indexed v) (edits : List Edit) :
    Indexed (edits.foldl Vocabulary.edit v) := by
  induction edits generalizing v with
  | nil => exact h
  | cons e edits ih => exact ih (h.edit e)

lemma indexed_make (edits : List Edit) : Indexed (make edits) := indexed_foldl Indexed.start' edits

lemma make_append (past more : List Edit) :
    make (past ++ more) = more.foldl edit (make past) := List.foldl_append

/-! ### References that have been given away -/

/-- Every position of the table still stands for a term with the same identifier and type. -/
def KeptBy (v w : Vocabulary) : Prop :=
  ∀ (n : ℕ) (t : Term), v.refMap[n]? = some t →
    ∃ u : Term, w.refMap[n]? = some u ∧ u.termId = t.termId ∧ u.termType = t.termType

lemma KeptBy.refl (v : Vocabulary) : KeptBy v v := fun _ t ht => ⟨t, ht, rfl, rfl⟩

lemma KeptBy.trans {x : Vocabulary} (h : KeptBy v w) (h' : KeptBy w x) : KeptBy v x := by
  intro n t ht
  obtain ⟨u, hu, hid, htype⟩ := h n t ht
  obtain ⟨s, hs, hid', htype'⟩ := h' n u hu
  exact ⟨s, hs, hid'.trans hid, htype'.trans htype⟩

lemma KeptBy.push {t : Term} (h : KeptBy v w) : KeptBy v (w.push t) := by
  intro n u hu
  obtain ⟨s, hs, hrest⟩ := h n u hu
  refine ⟨s, ?_, hrest⟩
  rw [Vocabulary.push, List.getElem?_append_left (List.getElem?_eq_some_iff.1 hs).1, hs]

lemma KeptBy.modify {i : ℕ} {f : Term → Term} {uriMap : List (Bytes × ℕ)}
    (hf : ∀ t, (f t).termId = t.termId ∧ (f t).termType = t.termType) :
    KeptBy v { v with refMap := v.refMap.modify i f, uriMap := uriMap } := by
  intro n t ht
  dsimp only
  rw [List.getElem?_modify, ht]
  by_cases hi : i = n
  · exact ⟨f t, by simp [hi], hf t⟩
  · exact ⟨t, by simp [hi], rfl, rfl⟩

lemma keptBy_edit (h : Indexed v) (e : Edit) : KeptBy v (v.edit e) := by
  rcases edit_cases h e with ⟨-, -, he⟩ | ⟨t, -, -, -, -, he⟩ | ⟨termId, r, -, -, -, he⟩ |
    ⟨t, r, -, -, -, -, he⟩ | ⟨t, r, -, -, -, -, -, he⟩
  · rw [he]
    exact KeptBy.refl v
  · rw [he]
    exact (KeptBy.refl v).push
  · rw [he]
    exact KeptBy.modify fun _ => ⟨rfl, rfl⟩
  · rw [he]
    exact KeptBy.modify fun _ => ⟨rfl, rfl⟩
  · rw [he]
    have herase : KeptBy v (v.eraseUri t.termId) := KeptBy.refl v
    exact herase.push

lemma keptBy_foldl (h : Indexed v) (edits : List Edit) : KeptBy v (edits.foldl edit v) := by
  induction edits generalizing v with
  | nil => exact KeptBy.refl v
  | cons e edits ih => exact (keptBy_edit h e).trans (ih (h.edit e))

lemma KeptBy.length_le (h : KeptBy v w) : v.refMap.length ≤ w.refMap.length := by
  by_contra hlt
  obtain ⟨u, hu, -⟩ := h w.refMap.length v.refMap[w.refMap.length] (List.getElem?_eq_getElem _)
  simp at hu

lemma KeptBy.get (h : KeptBy v w) {r : ℕ} (hr : r < v.refMap.length) :
    (w.get r).termId = (v.get r).termId ∧ (w.get r).termType = (v.get r).termType := by
  have ht := List.getElem?_eq_getElem hr
  obtain ⟨u, hu, hrest⟩ := h r _ ht
  rwa [Vocabulary.get, Vocabulary.get, hu, ht]

/-- In the course of the calls, an identifier has come to have the reference. -/
def HandedOut (edits : List Edit) (termRef : ℕ) : Prop :=
  termRef ≠ 0 ∧ ∃ past more termId, edits = past ++ more ∧ (make past).findTerm termId = termRef

/-- A call makes the table longer by one at most, and then an identifier has the new reference. -/
lemma length_edit (h : Indexed v) (e : Edit) :
    (v.edit e).refMap.length = v.refMap.length ∨
      (v.edit e).refMap.length = v.refMap.length + 1 ∧
        ∃ termId, (v.edit e).findTerm termId = v.refMap.length := by
  have hpush : ∀ (u : Vocabulary) (t : Term), u.refMap = v.refMap → Sound (u.push t) →
      (u.push t).refMap.length = v.refMap.length + 1 ∧
        ∃ termId, (u.push t).findTerm termId = v.refMap.length := by
    intro u t hu hsound
    refine ⟨by simp [push, hu], t.termId, ?_⟩
    rw [hsound.findTerm_eq (e := (t.termId, v.refMap.length))]
    rw [findUri_push, if_pos rfl, hu]
  rcases edit_cases h e with ⟨-, -, he⟩ | ⟨t, -, -, -, -, he⟩ | ⟨termId, r, -, -, -, he⟩ |
    ⟨t, r, -, -, -, -, he⟩ | ⟨t, r, -, -, -, -, -, he⟩
  · exact Or.inl (by rw [he])
  · right
    rw [he]
    exact hpush v t rfl (he ▸ (h.edit e).toSound)
  · exact Or.inl (by simp [he])
  · exact Or.inl (by simp [he])
  · right
    rw [he]
    exact hpush _ t rfl (he ▸ (h.edit e).toSound)

/-- The references that have been given away are the positions of the table. -/
lemma handedOut_iff (edits : List Edit) (termRef : ℕ) :
    HandedOut edits termRef ↔ termRef ≠ 0 ∧ termRef < (make edits).refMap.length := by
  constructor
  · rintro ⟨hne, past, more, termId, rfl, rfl⟩
    refine ⟨hne, ((indexed_make past).findTerm_lt hne).trans_le ?_⟩
    rw [make_append]
    exact (keptBy_foldl (indexed_make past) more).length_le
  · rintro ⟨hne, hlt⟩
    refine ⟨hne, ?_⟩
    induction edits using List.reverseRecOn with
    | nil =>
      have : termRef < 1 := hlt
      omega
    | append_singleton edits e ih =>
      have hlast : make (edits ++ [e]) = (make edits).edit e := make_append edits [e]
      by_cases hold : termRef < (make edits).refMap.length
      · obtain ⟨past, more, termId, rfl, hfind⟩ := ih hold
        exact ⟨past, more ++ [e], termId, by simp, hfind⟩
      · rw [hlast] at hlt
        rcases length_edit (indexed_make edits) e with hlen | ⟨hlen, termId, hfind⟩
        · exact absurd (hlen ▸ hlt) hold
        · refine ⟨edits ++ [e], [], termId, by simp, ?_⟩
          rw [hlast, hfind]
          omega

/-- Whatever calls are made: the table has one entry more than the largest reference that has
been given away, an identifier that is defined has one reference, whose term has both, a
reference stands for a term of the same identifier and type for ever, and a call that throws
changes nothing. -/
theorem table_over_history (edits : List Edit) :
    (∀ r, HandedOut edits r ↔ r ≠ 0 ∧ r < (make edits).refMap.length) ∧
    (∀ termId, ((make edits).findUri termId).isSome →
      ∃! r, (termId, r) ∈ (make edits).uriMap ∧ r ≠ 0 ∧ (make edits).findTerm termId = r ∧
        ∃ t, (make edits).refMap[r]? = some t ∧ t.termId = termId ∧ t.termRef = r) ∧
    (∀ termId, ∀ r s, (termId, r) ∈ (make edits).uriMap → (termId, s) ∈ (make edits).uriMap →
      r = s) ∧
    (∀ past more, edits = past ++ more → ∀ r, HandedOut past r →
      ((make edits).get r).termId = ((make past).get r).termId ∧
      ((make edits).get r).termType = ((make past).get r).termType) ∧
    (∀ past e more x, edits = past ++ e :: more → (make past).thrown e = some x →
      make (past ++ [e]) = make past) := by
  have h := indexed_make edits
  refine ⟨handedOut_iff edits, ?_, ?_, ?_, ?_⟩
  · intro termId hlive
    obtain ⟨e, hfind⟩ := Option.isSome_iff_exists.1 hlive
    obtain ⟨hmem, rfl⟩ := mem_of_findUri hfind
    obtain ⟨hne, hterm⟩ := h.entry e hmem
    refine ⟨e.2, ⟨hmem, hne, h.findTerm_eq hfind, hterm⟩, ?_⟩
    rintro r ⟨-, -, hr, -⟩
    exact hr.symm.trans (h.findTerm_eq hfind)
  · intro termId r s hr hs
    have hr := (findUri_eq_some h.nodup (e := (termId, r))).2 hr
    have hs := (findUri_eq_some h.nodup (e := (termId, s))).2 hs
    exact congrArg Prod.snd (Option.some.inj (hr.symm.trans hs))
  · rintro past more rfl r hr
    rw [make_append]
    exact (keptBy_foldl (indexed_make past) more).get ((handedOut_iff past r).1 hr).2
  · rintro past e more x - hx
    rw [make_append]
    exact edit_of_thrown (indexed_make past) hx

/-- A term of another type, and a removed term. -/
example : (make [.addTerm { termId := ascii "a", termType := .int32 },
      .updateTerm { termId := ascii "a", termType := .string },
      .addTerm { termId := ascii "b" }, .removeTerm (ascii "b")]).refMap.map
        (fun t => (t.termRef, t.termType)) =
    [(0, .null), (1, .int32), (2, .string), (0, .null)] := by decide

end Vocabulary

end PionCore.Platform
