/-
# The universal vocabulary

A manager keeps the configurations of several vocabularies, and a universal vocabulary that is
bound to each of them: it gets the terms that a configuration has, and then every call of the
configuration.  Nothing tells it that a whole configuration is removed.
-/
import PionCore.Platform.VocabularyFile

namespace PionCore.Platform

open PionCore.Lib Vocabulary

/-- The exceptions of a vocabulary manager. -/
inductive VocabularyManagerError where
  | duplicateVocabulary (vocabId : Bytes)
  | vocabularyNotFound (vocabId : Bytes)
  | config (exception : VocabularyConfigError)
deriving DecidableEq

/-- `VocabularyManager`: `m_vocab_map` and `m_vocabulary`. -/
structure VocabularyManager where
  vocabMap : List (Bytes × VocabularyConfig) := []
  vocabulary : Vocabulary := {}
deriving DecidableEq

/-- A file that is opened: the identifier of the vocabulary, its elements, and its lock. -/
structure VocabularyFile where
  vocabId : Bytes
  nodes : List TermNode
  isLocked : Bool := false
deriving DecidableEq

namespace VocabularyManager

/-- `m_vocab_map.find`. -/
def findVocabulary (m : VocabularyManager) (vocabId : Bytes) :
    Option (Bytes × VocabularyConfig) :=
  m.vocabMap.find? fun p => p.1 == vocabId

/-- The insertion of a configuration, and `bind`. -/
def bind (m : VocabularyManager) (vocabId : Bytes) (c : VocabularyConfig) : VocabularyManager :=
  { vocabMap := m.vocabMap ++ [(vocabId, c)], vocabulary := m.vocabulary.incorporate c.vocabulary }

/-- The loop of `openConfigFile` over the files. -/
def loadVocabularies (m : VocabularyManager) :
    List VocabularyFile → Except VocabularyManagerError VocabularyManager
  | [] => .ok m
  | file :: files =>
    if (m.findVocabulary file.vocabId).isSome then .error (.duplicateVocabulary file.vocabId)
    else
      match VocabularyConfig.openConfigFile file.nodes file.isLocked with
      | .error exception => .error (.config exception)
      | .ok c => loadVocabularies (m.bind file.vocabId c) files

/-- `openConfigFile`; without files it is `createConfigFile`. -/
def openConfigFile (files : List VocabularyFile) :
    Except VocabularyManagerError VocabularyManager :=
  loadVocabularies {} files

/-- `addVocabulary`. -/
def addVocabulary (m : VocabularyManager) (vocabId : Bytes) :
    Except VocabularyManagerError VocabularyManager :=
  if (m.findVocabulary vocabId).isSome then .error (.duplicateVocabulary vocabId)
  else .ok (m.bind vocabId {})

/-- `removeVocabulary`. -/
def removeVocabulary (m : VocabularyManager) (vocabId : Bytes) :
    Except VocabularyManagerError VocabularyManager :=
  if (m.findVocabulary vocabId).isSome then
    .ok { m with vocabMap := m.vocabMap.filter fun p => p.1 != vocabId }
  else .error (.vocabularyNotFound vocabId)

/-- `updateVocabulary` with a call of the configuration: `addTerm`, `updateTerm` or
`removeTerm`. -/
def updateVocabulary (m : VocabularyManager) (vocabId : Bytes) (e : Edit) :
    Except VocabularyManagerError VocabularyManager :=
  match m.findVocabulary vocabId with
  | none => .error (.vocabularyNotFound vocabId)
  | some (_, c) =>
    match VocabularyConfig.edit [m.vocabulary] c e with
    | .error exception => .error (.config exception)
    | .ok (slots, c) =>
      .ok
        { vocabMap := m.vocabMap.map fun p => if p.1 = vocabId then (p.1, c) else p
          vocabulary := slots.headD m.vocabulary }

/-- A call of a manager. -/
inductive Call where
  | addVocabulary (vocabId : Bytes)
  | removeVocabulary (vocabId : Bytes)
  | edit (vocabId : Bytes) (e : Edit)
deriving DecidableEq

def call (m : VocabularyManager) : Call → Except VocabularyManagerError VocabularyManager
  | .addVocabulary vocabId => m.addVocabulary vocabId
  | .removeVocabulary vocabId => m.removeVocabulary vocabId
  | .edit vocabId e => m.updateVocabulary vocabId e

/-- A call that succeeds. -/
def step (m : VocabularyManager) (e : Call) : Option VocabularyManager := (m.call e).toOption

/-- The universal vocabulary has the terms of the loaded vocabularies, with the same
definitions. -/
def IsUnion (m : VocabularyManager) : Prop :=
  ∀ termId,
    ((m.vocabulary.findUri termId).isSome ↔
      ∃ p ∈ m.vocabMap, (p.2.vocabulary.findUri termId).isSome) ∧
    ∀ p ∈ m.vocabMap, (p.2.vocabulary.findUri termId).isSome →
      m.vocabulary.definition termId = p.2.vocabulary.definition termId

/-- The loaded vocabularies agree on the terms that they share. -/
def Agree (m : VocabularyManager) : Prop :=
  ∀ p ∈ m.vocabMap, ∀ q ∈ m.vocabMap, ∀ termId, (p.2.vocabulary.findUri termId).isSome →
    (q.2.vocabulary.findUri termId).isSome →
    p.2.vocabulary.definition termId = q.2.vocabulary.definition termId

/-- A vocabulary that is removed has no term that no other one has, and a term that is removed or
changed belongs to no other vocabulary. -/
def KeepsShared : Call → VocabularyManager → Prop
  | .addVocabulary _, _ => True
  | .removeVocabulary vocabId, m =>
    ∀ p ∈ m.vocabMap, p.1 = vocabId → ∀ termId, (p.2.vocabulary.findUri termId).isSome →
      ∃ q ∈ m.vocabMap, q.1 ≠ vocabId ∧ (q.2.vocabulary.findUri termId).isSome
  | .edit _ (.addTerm _), _ => True
  | .edit vocabId (.removeTerm termId), m =>
    ∀ p ∈ m.vocabMap, p.1 ≠ vocabId → ¬ (p.2.vocabulary.findUri termId).isSome
  | .edit vocabId (.updateTerm t), m =>
    ∀ p ∈ m.vocabMap, p.1 ≠ vocabId → (p.2.vocabulary.findUri t.termId).isSome →
      p.2.vocabulary.definition t.termId =
        some (redefined t (p.2.vocabulary.definition t.termId))

/-- What holds behind every run. -/
structure Wellformed (m : VocabularyManager) : Prop where
  nodup : (m.vocabMap.map Prod.fst).Nodup
  indexed : Indexed m.vocabulary
  parts : ∀ p ∈ m.vocabMap, Indexed p.2.vocabulary

variable {m m' : VocabularyManager} {u v : Vocabulary}

lemma indexed_incorporate (hu : Indexed u) (v : Vocabulary) : Indexed (u.incorporate v) := by
  rw [incorporate]
  generalize List.range v.numTerms = ns
  induction ns generalizing u with
  | nil => exact hu
  | cons n ns ih => exact ih (indexed_copyTerm hu _)

lemma Wellformed.bind (h : Wellformed m) {vocabId : Bytes} {c : VocabularyConfig}
    (hnew : ¬ (m.findVocabulary vocabId).isSome) (hc : Indexed c.vocabulary) :
    Wellformed (m.bind vocabId c) where
  nodup := by
    rw [VocabularyManager.bind, List.map_append, List.map_singleton]
    refine List.nodup_append_comm.1 (List.nodup_cons.2 ⟨fun hmem => hnew ?_, h.nodup⟩)
    obtain ⟨p, hp, hkey⟩ := List.mem_map.1 hmem
    rw [findVocabulary, List.find?_isSome]
    exact ⟨p, hp, by simpa using hkey⟩
  indexed := indexed_incorporate h.indexed c.vocabulary
  parts := by
    intro p hp
    rcases List.mem_append.1 hp with hp | hp
    · exact h.parts p hp
    · obtain rfl := List.mem_singleton.1 hp
      exact hc

/-- A configuration is called together with the universal vocabulary. -/
lemma updateVocabulary_ok {vocabId : Bytes} {e : Edit} (h : m.updateVocabulary vocabId e = .ok m') :
    ∃ c d, (vocabId, c) ∈ m.vocabMap ∧ c.vocabulary.thrown e = none ∧
      m.vocabulary.thrown e = none ∧ d.vocabulary = c.vocabulary.edit e ∧
      m' = ⟨m.vocabMap.map fun p => if p.1 = vocabId then (p.1, d) else p,
        m.vocabulary.edit e⟩ := by
  rw [updateVocabulary] at h
  cases hfind : m.findVocabulary vocabId with
  | none => simp [hfind] at h
  | some p =>
    obtain ⟨key, c⟩ := p
    have hmem := List.mem_of_find?_eq_some hfind
    have hkey : key = vocabId := by simpa using List.find?_some hfind
    subst hkey
    simp only [hfind] at h
    cases hedit : VocabularyConfig.edit [m.vocabulary] c e with
    | error x => simp [hedit] at h
    | ok q =>
      obtain ⟨slots, d⟩ := q
      simp only [hedit, Except.ok.injEq] at h
      subst h
      obtain ⟨hnone, hslots, nodes, -, rfl⟩ := VocabularyConfig.edit_ok hedit
      rw [VocabularyConfig.notify] at hslots
      cases hcall : VocabularyConfig.call e m.vocabulary with
      | error x => simp [hcall] at hslots
      | ok w =>
        obtain ⟨huniversal, rfl⟩ := VocabularyConfig.call_ok.1 hcall
        simp only [hcall, VocabularyConfig.notify, Except.ok.injEq] at hslots
        subst hslots
        exact ⟨c, _, hmem, hnone, huniversal, rfl, rfl⟩

lemma addVocabulary_ok {vocabId : Bytes} (h : m.addVocabulary vocabId = .ok m') :
    ¬ (m.findVocabulary vocabId).isSome ∧ m' = m.bind vocabId {} := by
  rw [addVocabulary] at h
  split_ifs at h with hnew
  exact ⟨hnew, (Except.ok.inj h).symm⟩

lemma removeVocabulary_ok {vocabId : Bytes} (h : m.removeVocabulary vocabId = .ok m') :
    m' = { m with vocabMap := m.vocabMap.filter fun p => p.1 != vocabId } := by
  rw [removeVocabulary] at h
  split_ifs at h
  exact (Except.ok.inj h).symm

lemma step_ok {e : Call} (h : step m e = some m') : m.call e = .ok m' := by
  rw [step] at h
  cases hcall : m.call e with
  | error x => simp [hcall, Except.toOption] at h
  | ok w =>
    rw [hcall] at h
    exact congrArg Except.ok (Option.some.inj h)

/-- A configuration behind a call is the one that was called, or another one. -/
lemma mem_updated {l : List (Bytes × VocabularyConfig)} {vocabId : Bytes}
    {c d : VocabularyConfig} (hc : (vocabId, c) ∈ l) {p : Bytes × VocabularyConfig} :
    p ∈ (l.map fun p => if p.1 = vocabId then (p.1, d) else p) ↔
      p = (vocabId, d) ∨ p ∈ l ∧ p.1 ≠ vocabId := by
  rw [List.mem_map]
  constructor
  · rintro ⟨q, hq, rfl⟩
    by_cases hkey : q.1 = vocabId
    · exact Or.inl (by rw [if_pos hkey, hkey])
    · exact Or.inr (by rw [if_neg hkey]; exact ⟨hq, hkey⟩)
  · rintro (rfl | ⟨hp, hkey⟩)
    · exact ⟨(vocabId, c), hc, by rw [if_pos rfl]⟩
    · exact ⟨p, hp, by rw [if_neg hkey]⟩

lemma Wellformed.step (h : Wellformed m) {e : Call} (hstep : step m e = some m') :
    Wellformed m' := by
  have hcall := step_ok hstep
  cases e with
  | addVocabulary vocabId =>
    obtain ⟨hnew, rfl⟩ := addVocabulary_ok hcall
    exact h.bind hnew Indexed.start'
  | removeVocabulary vocabId =>
    obtain rfl := removeVocabulary_ok hcall
    exact ⟨(List.filter_sublist.map _).nodup h.nodup, h.indexed,
      fun p hp => h.parts p (List.mem_of_mem_filter hp)⟩
  | edit vocabId e =>
    obtain ⟨c, d, hc, -, -, hd, rfl⟩ := updateVocabulary_ok hcall
    refine ⟨?_, h.indexed.edit e, ?_⟩
    · have hkeys : (m.vocabMap.map fun p => if p.1 = vocabId then (p.1, d) else p).map Prod.fst =
          m.vocabMap.map Prod.fst := by
        rw [List.map_map]
        refine List.map_congr_left fun p _ => ?_
        dsimp only [Function.comp]
        split_ifs <;> rfl
      rw [hkeys]
      exact h.nodup
    · intro p hp
      rcases (mem_updated hc).1 hp with rfl | ⟨hp, -⟩
      · exact hd ▸ (h.parts _ hc).edit e
      · exact h.parts p hp

/-! ### The union behind a call -/

/-- The union at one identifier, by the definitions. -/
def UnionAt (m : VocabularyManager) (termId : Bytes) : Prop :=
  ((m.vocabulary.definition termId).isSome ↔
    ∃ p ∈ m.vocabMap, (p.2.vocabulary.definition termId).isSome) ∧
  ∀ p ∈ m.vocabMap, (p.2.vocabulary.definition termId).isSome →
    m.vocabulary.definition termId = p.2.vocabulary.definition termId

lemma isUnion_iff : IsUnion m ↔ ∀ termId, UnionAt m termId := by
  simp only [IsUnion, UnionAt, definition_isSome]

section Edited

variable {vocabId : Bytes} {c d : VocabularyConfig} {e : Edit}

/-- A call of a configuration changes the union at one identifier only. -/
lemma unionAt_edit_of_ne (h : Wellformed m) (hc : (vocabId, c) ∈ m.vocabMap)
    (hnone : c.vocabulary.thrown e = none) (huniversal : m.vocabulary.thrown e = none)
    (hd : d.vocabulary = c.vocabulary.edit e) {termId : Bytes} (hne : termId ≠ e.termId)
    (hu : UnionAt m termId) :
    UnionAt ⟨m.vocabMap.map fun p => if p.1 = vocabId then (p.1, d) else p,
      m.vocabulary.edit e⟩ termId := by
  have hsame : (m.vocabulary.edit e).definition termId = m.vocabulary.definition termId := by
    rw [definition_edit h.indexed huniversal, definedBy_of_ne hne]
  have hpart : d.vocabulary.definition termId = c.vocabulary.definition termId := by
    rw [hd, definition_edit (h.parts _ hc) hnone, definedBy_of_ne hne]
  obtain ⟨hiff, hdef⟩ := hu
  refine ⟨?_, ?_⟩
  · dsimp only
    rw [hsame, hiff]
    constructor
    · rintro ⟨p, hp, hlive⟩
      by_cases hkey : p.1 = vocabId
      · obtain rfl : p = (vocabId, c) := List.inj_on_of_nodup_map h.nodup hp hc hkey
        exact ⟨(vocabId, d), (mem_updated hc).2 (Or.inl rfl), by rw [hpart]; exact hlive⟩
      · exact ⟨p, (mem_updated hc).2 (Or.inr ⟨hp, hkey⟩), hlive⟩
    · rintro ⟨p, hp, hlive⟩
      rcases (mem_updated hc).1 hp with rfl | ⟨hp, -⟩
      · exact ⟨(vocabId, c), hc, hpart ▸ hlive⟩
      · exact ⟨p, hp, hlive⟩
  · intro p hp hlive
    dsimp only
    rw [hsame]
    rcases (mem_updated hc).1 hp with rfl | ⟨hp, -⟩
    · rw [hpart] at hlive ⊢
      exact hdef _ hc hlive
    · exact hdef p hp hlive

/-- At the identifier of the call, the union depends on the other vocabularies with the term. -/
lemma unionAt_edit_self (h : Wellformed m) (hc : (vocabId, c) ∈ m.vocabMap)
    (hnone : c.vocabulary.thrown e = none) (huniversal : m.vocabulary.thrown e = none)
    (hd : d.vocabulary = c.vocabulary.edit e) (hu : UnionAt m e.termId) :
    UnionAt ⟨m.vocabMap.map fun p => if p.1 = vocabId then (p.1, d) else p,
        m.vocabulary.edit e⟩ e.termId ↔ KeepsShared (.edit vocabId e) m := by
  have hnew : (m.vocabulary.edit e).definition e.termId =
      definedBy m.vocabulary.definition e e.termId := by
    rw [definition_edit h.indexed huniversal]
  have hpart : d.vocabulary.definition e.termId =
      definedBy c.vocabulary.definition e e.termId := by
    rw [hd, definition_edit (h.parts _ hc) hnone]
  have haccepts := (thrown_eq_none (h.parts _ hc)).1 hnone
  have haccepts' := (thrown_eq_none h.indexed).1 huniversal
  obtain ⟨hiff, hdef⟩ := hu
  cases e with
  | addTerm t =>
    rw [definedBy, Edit.termId, Function.update_self] at hnew hpart
    refine iff_of_true ⟨?_, ?_⟩ trivial
    · rw [Edit.termId]
      dsimp only
      rw [hnew]
      exact iff_of_true rfl ⟨(vocabId, d), (mem_updated hc).2 (Or.inl rfl), by rw [hpart]; rfl⟩
    · intro p hp hlive
      rcases (mem_updated hc).1 hp with rfl | ⟨hp, -⟩
      · exact hnew.trans hpart.symm
      · -- no other vocabulary has the term, as it is new to the universal one
        have hnot := hiff.2 ⟨p, hp, hlive⟩
        rw [Edit.termId, definition_eq_none.2 haccepts'.2] at hnot
        cases hnot
  | updateTerm t =>
    rw [definedBy, Edit.termId, Function.update_self] at hnew hpart
    have hlive : (c.vocabulary.definition t.termId).isSome := by
      rw [definition_isSome]
      exact haccepts
    have hdef : ∀ p ∈ m.vocabMap, (p.2.vocabulary.definition t.termId).isSome →
      m.vocabulary.definition t.termId = p.2.vocabulary.definition t.termId := hdef
    have hold := hdef _ hc hlive
    constructor
    · rintro ⟨-, hafter⟩ p hp hkey hp'
      rw [← definition_isSome] at hp'
      have hsame := hafter p ((mem_updated hc).2 (Or.inr ⟨hp, hkey⟩)) hp'
      rw [← hdef p hp hp']
      exact (hdef p hp hp').trans (hsame.symm.trans hnew)
    · intro hkeeps
      refine ⟨?_, ?_⟩
      · rw [Edit.termId]
        dsimp only
        rw [hnew]
        exact iff_of_true rfl ⟨(vocabId, d), (mem_updated hc).2 (Or.inl rfl), by rw [hpart]; rfl⟩
      · intro p hp hp'
        rcases (mem_updated hc).1 hp with rfl | ⟨hp, hkey⟩
        · rw [Edit.termId]
          dsimp only
          rw [hnew, hpart, hold]
        · rw [Edit.termId] at hp' ⊢
          dsimp only
          rw [hnew, hdef p hp hp']
          rw [definition_isSome] at hp'
          exact (hkeeps p hp hkey hp').symm
  | removeTerm termId =>
    rw [definedBy, Edit.termId, Function.update_self] at hnew hpart
    constructor
    · rintro ⟨hafter, -⟩ p hp hkey hp'
      rw [← definition_isSome] at hp'
      have hlive := hafter.2 ⟨p, (mem_updated hc).2 (Or.inr ⟨hp, hkey⟩), hp'⟩
      rw [Edit.termId, hnew] at hlive
      cases hlive
    · intro hkeeps
      have hnot : ∀ p ∈ m.vocabMap.map fun p => if p.1 = vocabId then (p.1, d) else p,
          ¬ (p.2.vocabulary.definition termId).isSome := by
        intro p hp hp'
        rcases (mem_updated hc).1 hp with rfl | ⟨hp, hkey⟩
        · rw [hpart] at hp'
          cases hp'
        · rw [definition_isSome] at hp'
          exact hkeeps p hp hkey hp'
      refine ⟨?_, fun p hp hp' => absurd hp' (hnot p hp)⟩
      rw [Edit.termId]
      dsimp only
      rw [hnew]
      refine iff_of_false (by simp) ?_
      rintro ⟨p, hp, hp'⟩
      exact hnot p hp hp'

end Edited

/-! ### Binding -/

/-- Every term of the table is the one that its identifier has, as long as no term has been removed
or has got another type. -/
structure Fresh (v : Vocabulary) : Prop extends Indexed v where
  current : ∀ n, n ≠ 0 → n < v.refMap.length →
    (v.get n).termRef ≠ 0 ∧ v.findTerm (v.get n).termId = n
  char : ∀ n, (v.get n).termType = .char → (v.get n).termSize ≠ 0

lemma fresh_start : Fresh {} where
  toIndexed := Indexed.start'
  current := by
    intro n hn hlt
    have : n < 1 := hlt
    omega
  char := by
    intro n hchar
    have hget : ({} : Vocabulary).get n = {} := by
      rcases n with - | n <;> rfl
    rw [hget] at hchar
    cases hchar

lemma Fresh.push (h : Fresh v) {t : Term} (hid : t.termId ≠ [])
    (hnew : v.findUri t.termId = none) : Fresh (v.push t) where
  toIndexed := h.toIndexed.push hid hnew
  current := by
    intro n hn hlt
    have hpushed := (h.toIndexed.push hid hnew).toSound
    rcases Nat.lt_or_ge n v.refMap.length with hold | hge
    · rw [get_push_of_lt hold]
      obtain ⟨href, hterm⟩ := h.current n hn hold
      refine ⟨href, ?_⟩
      have hfind := h.findUri_of_findTerm
        (show v.findTerm (v.get n).termId ≠ 0 by rwa [hterm])
      rw [hterm] at hfind
      refine hpushed.findTerm_eq (e := ((v.get n).termId, n)) ?_
      rw [findUri_push, if_neg, hfind]
      intro hsame
      rw [← hsame, hnew] at hfind
      cases hfind
    · have hlen : (v.push t).refMap.length = v.refMap.length + 1 := by simp [Vocabulary.push]
      obtain rfl : n = v.refMap.length := by omega
      have hget : (v.push t).get v.refMap.length =
          { t with termRef := v.numTerms + 1, termSize := Vocabulary.sizeOf t } := by
        rw [Vocabulary.get, Vocabulary.push, List.getElem?_concat_length]
        rfl
      rw [hget]
      refine ⟨Nat.succ_ne_zero _, hpushed.findTerm_eq (e := (t.termId, v.refMap.length)) ?_⟩
      rw [findUri_push, if_pos rfl]
  char := by
    intro n hchar
    rcases Nat.lt_or_ge n v.refMap.length with hold | hge
    · rw [get_push_of_lt hold] at hchar ⊢
      exact h.char n hchar
    · cases hget : (v.push t).refMap[n]? with
      | none =>
        rw [Vocabulary.get, hget] at hchar
        cases hchar
      | some u =>
        rcases getElem?_push hget with hold | ⟨-, rfl⟩
        · exact absurd (List.getElem?_eq_some_iff.1 hold).1 (not_lt.2 hge)
        · rw [Vocabulary.get, hget, Option.getD_some] at hchar ⊢
          have htype : t.termType = .char := hchar
          simp only [Vocabulary.sizeOf, htype, true_and]
          split_ifs with hzero
          · exact one_ne_zero
          · exact hzero

lemma fresh_loadTerms (hv : Fresh v) {nodes : List TermNode} {w : Vocabulary}
    (h : loadTerms v nodes = .ok w) : Fresh w := by
  induction nodes generalizing v with
  | nil => exact Except.ok.inj h ▸ hv
  | cons node nodes ih =>
    obtain ⟨t, -, hne, -, hnew, hrest⟩ := VocabularyConfig.loadTerms_cons.1 h
    exact ih (hv.push hne hnew) hrest

lemma fresh_openConfigFile {nodes : List TermNode} {isLocked : Bool} {c : VocabularyConfig}
    (h : VocabularyConfig.openConfigFile nodes isLocked = .ok c) : Fresh c.vocabulary := by
  rw [VocabularyConfig.openConfigFile] at h
  split_ifs at h
  cases hload : loadTerms {} nodes with
  | error x => simp [hload] at h
  | ok w =>
    simp only [hload, Except.ok.injEq] at h
    subst h
    exact fresh_loadTerms fresh_start hload

/-- The definitions up to a position of the table. -/
def definedUpTo (v : Vocabulary) (n : ℕ) (termId : Bytes) : Option Definition :=
  if v.findTerm termId ≤ n then v.definition termId else none

lemma Fresh.added_get (h : Fresh v) {n : ℕ} (hn : n ≠ 0) (hlt : n < v.refMap.length) :
    v.definition (v.get n).termId = some (added (v.get n)) := by
  obtain ⟨-, hterm⟩ := h.current n hn hlt
  have hfind := h.findUri_of_findTerm (show v.findTerm (v.get n).termId ≠ 0 by rwa [hterm])
  rw [definition_of_findUri hfind, hterm, added, Vocabulary.sizeOf,
    if_neg fun hchar => h.char n hchar.1 hchar.2]

/-- Behind the loop of `operator+=`, the terms of the other vocabulary have been added, unless
there was a term with the same identifier. -/
lemma incorporate_upTo (hu : Indexed u) (hv : Fresh v) (n : ℕ) (hn : n < v.refMap.length) :
    Indexed ((List.range n).foldl (fun w n => w.copyTerm (v.get (n + 1))) u) ∧
      ((List.range n).foldl (fun w n => w.copyTerm (v.get (n + 1))) u).definition =
        fun termId => (u.definition termId).or (definedUpTo v n termId) := by
  induction n with
  | zero =>
    refine ⟨hu, ?_⟩
    funext termId
    have hnone : definedUpTo v 0 termId = none := by
      rw [definedUpTo]
      split_ifs with hzero
      · exact definition_eq_none.2 (hv.findTerm_eq_zero.1 (Nat.le_zero.1 hzero))
      · rfl
    rw [hnone, Option.or_none]
    rfl
  | succ n ih =>
    obtain ⟨hw, hdef⟩ := ih (by omega)
    rw [List.range_succ, List.foldl_append, List.foldl_cons, List.foldl_nil]
    generalize (List.range n).foldl (fun w n => w.copyTerm (v.get (n + 1))) u = w at hw hdef
    obtain ⟨href, hterm⟩ := hv.current (n + 1) (Nat.succ_ne_zero n) hn
    have hadded := hv.added_get (Nat.succ_ne_zero n) hn
    refine ⟨indexed_copyTerm hw _, ?_⟩
    have hother : ∀ termId, termId ≠ (v.get (n + 1)).termId →
        definedUpTo v (n + 1) termId = definedUpTo v n termId := by
      intro termId hne
      have hpos : v.findTerm termId ≠ n + 1 := by
        intro heq
        have he := hv.findUri_of_findTerm
          (show v.findTerm termId ≠ 0 by rw [heq]; exact Nat.succ_ne_zero n)
        have hf := hv.findUri_of_findTerm
          (show v.findTerm (v.get (n + 1)).termId ≠ 0 by rw [hterm]; exact Nat.succ_ne_zero n)
        exact hne (hv.findUri_inj he hf (heq.trans hterm.symm))
      rw [definedUpTo, definedUpTo]
      have hiff : v.findTerm termId ≤ n + 1 ↔ v.findTerm termId ≤ n := by omega
      simp only [hiff]
    have hself : definedUpTo v (n + 1) (v.get (n + 1)).termId = some (added (v.get (n + 1))) := by
      rw [definedUpTo, if_pos hterm.le, hadded]
    have hbefore : definedUpTo v n (v.get (n + 1)).termId = none := by
      rw [definedUpTo, if_neg (by omega)]
    have hhere : w.definition (v.get (n + 1)).termId = u.definition (v.get (n + 1)).termId := by
      rw [hdef]
      dsimp only
      rw [hbefore, Option.or_none]
    rcases copyTerm_cases (v.get (n + 1)) (v := w) with ⟨hzero, -⟩ | ⟨-, hsame, hkept⟩ |
      ⟨-, -, hnew, hpush⟩
    · exact absurd hzero href
    · rw [hsame, hdef]
      funext termId
      by_cases hid : termId = (v.get (n + 1)).termId
      · -- the identifier is there already
        subst hid
        have hne := hv.named (n + 1) _ (Nat.succ_ne_zero n) (getElem?_get hn)
        have hlive := hkept.resolve_left hne
        rw [← definition_isSome, hhere] at hlive
        obtain ⟨x, hx⟩ := Option.isSome_iff_exists.1 hlive
        rw [hx, Option.some_or, Option.some_or]
      · rw [hother termId hid]
    · rw [hpush, definition_push hw.toSound]
      funext termId
      by_cases hid : termId = (v.get (n + 1)).termId
      · subst hid
        have hnone := definition_eq_none.2 hnew
        rw [hhere] at hnone
        rw [Function.update_self, hnone, hself, Option.none_or]
      · rw [Function.update_of_ne hid, hdef, hother termId hid]

lemma definition_incorporate (hu : Indexed u) (hv : Fresh v) :
    (u.incorporate v).definition =
      fun termId => (u.definition termId).or (v.definition termId) := by
  have hlen := hv.length
  have h := (incorporate_upTo hu hv v.numTerms (by omega)).2
  rw [incorporate, h]
  funext termId
  have hle : v.findTerm termId ≤ v.numTerms := by
    by_cases hzero : v.findTerm termId = 0
    · omega
    · have := hv.findTerm_lt hzero
      omega
  rw [definedUpTo, if_pos hle]

/-! ### Runs -/

/-- The other calls, which do not change a term. -/
lemma isUnion_addVocabulary (h : Wellformed m) (hu : IsUnion m) {vocabId : Bytes} :
    IsUnion (m.bind vocabId {}) := by
  rw [isUnion_iff] at hu ⊢
  intro termId
  obtain ⟨hiff, hdef⟩ := hu termId
  have hsame : (m.bind vocabId {}).vocabulary.definition termId =
      m.vocabulary.definition termId := by
    rw [VocabularyManager.bind, definition_incorporate h.indexed fresh_start]
    exact Option.or_none
  refine ⟨?_, ?_⟩
  · rw [hsame, hiff]
    constructor
    · rintro ⟨p, hp, hlive⟩
      exact ⟨p, List.mem_append_left _ hp, hlive⟩
    · rintro ⟨p, hp, hlive⟩
      rcases List.mem_append.1 hp with hp | hp
      · exact ⟨p, hp, hlive⟩
      · obtain rfl := List.mem_singleton.1 hp
        cases hlive
  · intro p hp hlive
    rw [hsame]
    rcases List.mem_append.1 hp with hp | hp
    · exact hdef p hp hlive
    · obtain rfl := List.mem_singleton.1 hp
      cases hlive

lemma isUnion_removeVocabulary (hu : IsUnion m) {vocabId : Bytes} :
    IsUnion { m with vocabMap := m.vocabMap.filter fun p => p.1 != vocabId } ↔
      KeepsShared (.removeVocabulary vocabId) m := by
  have hmem : ∀ p, p ∈ m.vocabMap.filter (fun p => p.1 != vocabId) ↔
      p ∈ m.vocabMap ∧ p.1 ≠ vocabId := by
    simp
  constructor
  · intro hafter p hp _ termId hlive
    obtain ⟨q, hq, hlive'⟩ := (hafter termId).1.1 ((hu termId).1.2 ⟨p, hp, hlive⟩)
    obtain ⟨hq, hkey⟩ := (hmem q).1 hq
    exact ⟨q, hq, hkey, hlive'⟩
  · intro hkeeps termId
    refine ⟨⟨fun hlive => ?_, ?_⟩, fun p hp => (hu termId).2 p ((hmem p).1 hp).1⟩
    · obtain ⟨p, hp, hlive'⟩ := (hu termId).1.1 hlive
      by_cases hkey : p.1 = vocabId
      · obtain ⟨q, hq, hqkey, hlive''⟩ := hkeeps p hp hkey termId hlive'
        exact ⟨q, (hmem q).2 ⟨hq, hqkey⟩, hlive''⟩
      · exact ⟨p, (hmem p).2 ⟨hp, hkey⟩, hlive'⟩
    · rintro ⟨p, hp, hlive⟩
      exact (hu termId).1.2 ⟨p, ((hmem p).1 hp).1, hlive⟩

lemma isUnion_step (h : Wellformed m) (hu : IsUnion m) {e : Call} (hstep : step m e = some m') :
    IsUnion m' ↔ KeepsShared e m := by
  have hcall := step_ok hstep
  cases e with
  | addVocabulary vocabId =>
    obtain ⟨-, rfl⟩ := addVocabulary_ok hcall
    exact iff_of_true (isUnion_addVocabulary h hu) trivial
  | removeVocabulary vocabId =>
    obtain rfl := removeVocabulary_ok hcall
    exact isUnion_removeVocabulary hu
  | edit vocabId e =>
    obtain ⟨c, d, hc, hnone, huniversal, hd, rfl⟩ := updateVocabulary_ok hcall
    rw [isUnion_iff] at hu ⊢
    rw [← unionAt_edit_self h hc hnone huniversal hd (hu e.termId)]
    constructor
    · exact fun hall => hall e.termId
    · intro hself termId
      by_cases hid : termId = e.termId
      · exact hid ▸ hself
      · exact unionAt_edit_of_ne h hc hnone huniversal hd hid (hu termId)

/-- What has been opened: the first vocabulary with a term gives its definition. -/
structure FirstWins (m : VocabularyManager) : Prop extends Wellformed m where
  first : ∀ termId, m.vocabulary.definition termId =
    m.vocabMap.findSome? fun p => p.2.vocabulary.definition termId

lemma FirstWins.bind (h : FirstWins m) {vocabId : Bytes} {c : VocabularyConfig}
    (hnew : ¬ (m.findVocabulary vocabId).isSome) (hc : Fresh c.vocabulary) :
    FirstWins (m.bind vocabId c) where
  toWellformed := h.toWellformed.bind hnew hc.toIndexed
  first := by
    intro termId
    rw [VocabularyManager.bind, definition_incorporate h.indexed hc]
    dsimp only
    rw [h.first termId, List.findSome?_append, List.findSome?_singleton]

lemma loadVocabularies_firstWins (h : FirstWins m) {files : List VocabularyFile}
    (hload : loadVocabularies m files = .ok m') : FirstWins m' := by
  induction files generalizing m with
  | nil => exact Except.ok.inj hload ▸ h
  | cons file files ih =>
    rw [loadVocabularies] at hload
    split_ifs at hload with hdup
    cases hopen : VocabularyConfig.openConfigFile file.nodes file.isLocked with
    | error x => simp [hopen] at hload
    | ok c =>
      simp only [hopen] at hload
      exact ih (h.bind hdup (fresh_openConfigFile hopen)) hload

lemma FirstWins.isUnion_iff_agree (h : FirstWins m) : IsUnion m ↔ Agree m := by
  rw [isUnion_iff, Agree]
  simp only [← definition_isSome]
  constructor
  · intro hall p hp q hq termId hlive hlive'
    exact ((hall termId).2 p hp hlive).symm.trans ((hall termId).2 q hq hlive')
  · intro hagree termId
    have hfirst := h.first termId
    have hsome : (m.vocabulary.definition termId).isSome ↔
        ∃ p ∈ m.vocabMap, (p.2.vocabulary.definition termId).isSome := by
      rw [hfirst, List.findSome?_isSome_iff]
    refine ⟨hsome, fun p hp hlive => ?_⟩
    obtain ⟨x, hx⟩ := Option.isSome_iff_exists.1 (hsome.2 ⟨p, hp, hlive⟩)
    rw [hfirst] at hx
    obtain ⟨q, hq, hqx⟩ := List.exists_of_findSome?_eq_some hx
    rw [hfirst, hx, ← hqx]
    exact hagree q hq p hp termId (by rw [hqx]; rfl) hlive

/-- In every state of a run, the universal vocabulary is the union of the loaded ones if and only
if those that have been opened agree, and every call keeps what the vocabularies share. -/
theorem vocabularyManager_union_iff {files : List VocabularyFile}
    (hopen : openConfigFile files = .ok m) {calls : List Call}
    (hrun : run step m calls = some m') :
    (∀ s, ReachedIn step m calls s → IsUnion s) ↔
      Agree m ∧ ∀ e s, HappensIn step m calls e s → KeepsShared e s := by
  have hfirst : FirstWins m := by
    have hstart : Wellformed {} := ⟨List.nodup_nil, Indexed.start', by simp⟩
    exact loadVocabularies_firstWins ⟨hstart, fun _ => rfl⟩ hopen
  have hwell : ∀ s, ReachedIn step m calls s → Wellformed s := by
    rintro s ⟨before, after, -, hs⟩
    exact run_invariant (fun _ _ _ h he => h.step he) hfirst.toWellformed hs
  by_cases hstart : IsUnion m
  · have hiff := reached_iff (P := fun s => Wellformed s ∧ IsUnion s) (Q := KeepsShared)
      ⟨hfirst.toWellformed, hstart⟩ (fun s e s' hs he => by
        rw [and_iff_right (hs.1.step he)]
        exact isUnion_step hs.1 hs.2 he) hrun
    rw [and_iff_right (hfirst.isUnion_iff_agree.1 hstart), ← hiff]
    exact forall₂_congr fun s hs => (and_iff_right (hwell s hs)).symm
  · refine iff_of_false (fun hall => hstart (hall m ⟨[], calls, rfl, rfl⟩)) fun h => ?_
    exact hstart (hfirst.isUnion_iff_agree.2 h.1)

/-- A term is removed from one vocabulary, and added to another one. -/
theorem vocabularyManager_union_iff_moved :
    let calls := [.addVocabulary (ascii "v"), .addVocabulary (ascii "w"),
      .edit (ascii "v") (.addTerm { termId := ascii "a", termType := .int32 }),
      .edit (ascii "v") (.updateTerm { termId := ascii "a", termType := .string }),
      .edit (ascii "v") (.removeTerm (ascii "a")),
      .edit (ascii "w") (.addTerm { termId := ascii "a", termType := .date }),
      .removeVocabulary (ascii "v")]
    ((run step {} calls).map fun m => m.vocabulary.definition (ascii "a")) =
        some (some (.date, 0, [], [])) ∧
      ((∀ s, ReachedIn step {} calls s → IsUnion s) ↔
        Agree {} ∧ ∀ e s, HappensIn step {} calls e s → KeepsShared e s) := by
  intro calls
  have hrun : ((run step {} calls).map fun m => m.vocabulary.definition (ascii "a")) =
      some (some (.date, 0, [], [])) := by
    decide +kernel
  obtain ⟨m, hm, -⟩ := Option.map_eq_some_iff.1 hrun
  have hopen : openConfigFile [] = .ok {} := rfl
  exact ⟨hrun, vocabularyManager_union_iff hopen hm⟩

/-- The term of a vocabulary that is removed stays. -/
theorem vocabularyManager_union_iff_removed :
    let calls := [.addVocabulary (ascii "v"),
      .edit (ascii "v") (.addTerm { termId := ascii "a", termType := .int32 }),
      .removeVocabulary (ascii "v")]
    ((run step {} calls).map fun m => (m.vocabMap.length, m.vocabulary.findTerm (ascii "a"))) =
        some (0, 1) ∧
      ∀ m, run step {} calls = some m → ¬ IsUnion m := by
  intro calls
  have hrun : ((run step {} calls).map fun m =>
      (m.vocabMap.length, (m.vocabulary.findUri (ascii "a")).isSome)) = some (0, true) := by
    decide +kernel
  refine ⟨by decide +kernel, fun m hm hunion => ?_⟩
  rw [hm, Option.map_some, Option.some.injEq, Prod.mk.injEq] at hrun
  obtain ⟨p, hp, -⟩ := (hunion (ascii "a")).1.1 hrun.2
  rw [List.length_eq_zero_iff.1 hrun.1] at hp
  exact List.not_mem_nil hp

end VocabularyManager

end PionCore.Platform
