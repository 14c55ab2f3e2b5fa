/-
# Sizes of characters

A new term of type `char` gets a size of at least one, also in a copy and in a union.  When a term
is updated and keeps its type, the new size is taken as it is: the characters have a size just in
those runs in which none of them is updated with a size of zero.
-/
import PionCore.Lib.Runs
import PionCore.Platform.VocabularyCopy

namespace PionCore.Platform

open PionCore.Lib

/-- The calls that change one of some vocabularies, or make a new one. -/
inductive VocabularyCall where
  | create
  | edit (i : ℕ) (e : Vocabulary.Edit)
  | copy (source : ℕ)
  /-- `operator+=` -/
  | incorporate (i source : ℕ)
deriving DecidableEq

namespace Vocabulary

/-- The vocabularies behind a call, which may throw. -/
def step (vs : List Vocabulary) : VocabularyCall → Option (List Vocabulary)
  | .create => some (vs ++ [{}])
  | .edit i e => (vs[i]?).map fun v => vs.set i (v.edit e)
  | .copy source => (vs[source]?).map fun s => vs ++ [s.copy]
  | .incorporate i source =>
    (vs[i]?).bind fun v => (vs[source]?).map fun s => vs.set i (v.incorporate s)

/-- A term of type `char` has a size of at least one. -/
def Sized (t : Term) : Prop := t.termType = .char → 1 ≤ t.termSize

/-- The live terms of all vocabularies have their sizes. -/
def CharsSized (vs : List Vocabulary) : Prop := ∀ v ∈ vs, ∀ e ∈ v.uriMap, Sized (v.get e.2)

/-- The call does not update a live `char` with another `char` whose size is zero. -/
def KeepsSizes (vs : List Vocabulary) : VocabularyCall → Bool
  | .edit i (.updateTerm t) =>
    match vs[i]? with
    | none => true
    | some v =>
      match v.findUri t.termId with
      | none => true
      | some e =>
        ! (t.termType = .char ∧ t.termSize = 0 ∧ (v.get e.2).termType = .char : Bool)
  | _ => true

/-- The whole table has sizes, with the terms that are not live any more. -/
structure SizedTable (v : Vocabulary) : Prop extends Indexed v where
  sized : ∀ (n : ℕ) (t : Term), v.refMap[n]? = some t → Sized t

variable {v w s : Vocabulary} {vs : List Vocabulary}

lemma sized_start (t : Term) (ht : t.termType = .null) : Sized t := fun hchar =>
  absurd (ht.symm.trans hchar) (by decide)

lemma SizedTable.empty : SizedTable {} where
  toIndexed := Indexed.start'
  sized := by
    intro n t ht
    have hmem := List.mem_of_getElem? ht
    obtain rfl := List.mem_singleton.1 hmem
    exact sized_start {} rfl

lemma SizedTable.live (h : SizedTable v) : ∀ e ∈ v.uriMap, Sized (v.get e.2) := by
  intro e he
  obtain ⟨-, t, ht, -⟩ := h.entry e he
  rw [get, ht, Option.getD_some]
  exact h.sized _ t ht

/-- A new term gets its size. -/
lemma SizedTable.push (h : SizedTable v) {t : Term} (hid : t.termId ≠ [])
    (hnew : v.findUri t.termId = none) : SizedTable (v.push t) where
  toIndexed := h.toIndexed.push hid hnew
  sized := by
    intro n u hu
    rcases getElem?_push hu with hold | ⟨-, rfl⟩
    · exact h.sized n u hold
    · intro hchar
      dsimp only at hchar ⊢
      rw [sizeOf]
      split_ifs with hsize
      · exact le_rfl
      · have : t.termSize ≠ 0 := fun hzero => hsize ⟨hchar, hzero⟩
        omega

lemma SizedTable.eraseUri (h : SizedTable v) (termId : Bytes) : SizedTable (v.eraseUri termId) where
  toIndexed := h.toIndexed.eraseUri termId
  sized := h.sized

lemma Sized.modify (h : ∀ (n : ℕ) (t : Term), v.refMap[n]? = some t → Sized t) {r : ℕ}
    {f : Term → Term} (hf : ∀ t, v.refMap[r]? = some t → Sized t → Sized (f t)) (n : ℕ) (u : Term)
    (hu : (v.refMap.modify r f)[n]? = some u) : Sized u := by
  obtain ⟨t, ht, rfl⟩ := Option.map_eq_some_iff.1 ((List.getElem?_modify ..).symm.trans hu)
  split_ifs with hr
  · subst hr
    exact hf t ht (h _ t ht)
  · exact h n t ht

/-- An edit keeps the sizes, unless it updates a `char` with a size of zero. -/
lemma SizedTable.edit (h : SizedTable v) (e : Edit)
    (he : ∀ t f, e = .updateTerm t → v.findUri t.termId = some f →
      ¬ (t.termType = .char ∧ t.termSize = 0 ∧ (v.get f.2).termType = .char)) :
    SizedTable (v.edit e) := by
  refine ⟨h.toIndexed.edit e, ?_⟩
  rcases edit_cases h.toIndexed e with ⟨-, -, hsame⟩ | ⟨t, -, hid, hnew, -, hpush⟩ |
    ⟨termId, r, -, -, -, hremoved⟩ | ⟨t, r, rfl, hfind, htype, -, hadopt⟩ |
    ⟨t, r, -, -, -, hid, -, hpush⟩
  · rw [hsame]
    exact h.sized
  · rw [hpush]
    exact (h.push hid hnew).sized
  · rw [hremoved]
    exact Sized.modify h.sized fun t _ ht => ht
  · rw [hadopt]
    refine Sized.modify h.sized fun u hu _ hchar => ?_
    -- the type is the old one, and the size is the new one
    have hget : v.get r = u := by rw [get, hu, Option.getD_some]
    have hchar : u.termType = .char := hchar
    have hkeeps := he t _ rfl hfind
    dsimp only at hkeeps
    rw [← htype, hget] at hkeeps
    have hsize : t.termSize ≠ 0 := fun hzero => hkeeps ⟨hchar, hzero, hchar⟩
    show 1 ≤ t.termSize
    omega
  · rw [hpush]
    exact ((h.eraseUri t.termId).push hid (by simp [findUri_eraseUri])).sized

lemma SizedTable.copyTerm (h : SizedTable v) (t : Term) : SizedTable (v.copyTerm t) := by
  rcases copyTerm_cases t with ⟨-, hsame⟩ | ⟨-, hsame, -⟩ | ⟨-, hid, hnew, hpush⟩
  · rwa [hsame]
  · rwa [hsame]
  · rw [hpush]
    exact h.push hid hnew

/-- A union gives each new term its size, whatever the source has. -/
lemma SizedTable.incorporate (h : SizedTable v) (source : Vocabulary) :
    SizedTable (v.incorporate source) := by
  rw [Vocabulary.incorporate]
  generalize List.range source.numTerms = positions
  induction positions generalizing v with
  | nil => exact h
  | cons n positions ih => exact ih (h.copyTerm _)

lemma forall_mem_set {P : Vocabulary → Prop} {i : ℕ} (h : ∀ u ∈ vs, P u) (hw : P w) :
    ∀ u ∈ vs.set i w, P u := by
  intro u hu
  rcases List.mem_or_eq_of_mem_set hu with hold | rfl
  · exact h u hold
  · exact hw

lemma forall_mem_concat {P : Vocabulary → Prop} (h : ∀ u ∈ vs, P u) (hw : P w) :
    ∀ u ∈ vs ++ [w], P u := by
  intro u hu
  rcases List.mem_append.1 hu with hold | hnew
  · exact h u hold
  · exact List.mem_singleton.1 hnew ▸ hw

/-- What the condition says of an edit. -/
lemma keepsSizes_edit {i : ℕ} {e : Edit} (hv : vs[i]? = some v)
    (hkeeps : KeepsSizes vs (.edit i e) = true) :
    ∀ t f, e = .updateTerm t → v.findUri t.termId = some f →
      ¬ (t.termType = .char ∧ t.termSize = 0 ∧ (v.get f.2).termType = .char) := by
  rintro t f rfl hfind hbad
  simp only [KeepsSizes, hv, hfind, hbad, and_self, decide_true, Bool.not_true,
    Bool.false_eq_true] at hkeeps

/-- A step: a call that meets the condition keeps all sizes. -/
lemma sizedTable_step {c : VocabularyCall} {ws : List Vocabulary} (h : ∀ v ∈ vs, SizedTable v)
    (hstep : step vs c = some ws) (hkeeps : KeepsSizes vs c = true) : ∀ w ∈ ws, SizedTable w := by
  cases c with
  | create =>
    obtain rfl := Option.some.inj hstep
    exact forall_mem_concat h SizedTable.empty
  | edit i e =>
    obtain ⟨v, hv, rfl⟩ := Option.map_eq_some_iff.1 hstep
    refine forall_mem_set h ?_
    exact (h v (List.mem_of_getElem? hv)).edit e (keepsSizes_edit hv hkeeps)
  | copy source =>
    obtain ⟨s, -, rfl⟩ := Option.map_eq_some_iff.1 hstep
    exact forall_mem_concat h (SizedTable.empty.incorporate s)
  | incorporate i source =>
    obtain ⟨v, hv, hrest⟩ := Option.bind_eq_some_iff.1 hstep
    obtain ⟨s, -, rfl⟩ := Option.map_eq_some_iff.1 hrest
    exact forall_mem_set h ((h v (List.mem_of_getElem? hv)).incorporate s)

/-- A call that does not meet it leaves a live `char` without a size. -/
lemma keepsSizes_of_charsSized {c : VocabularyCall} {ws : List Vocabulary}
    (h : ∀ v ∈ vs, SizedTable v) (hstep : step vs c = some ws) (hws : CharsSized ws) :
    KeepsSizes vs c = true := by
  cases c with
  | create | copy _ | incorporate _ _ => rfl
  | edit i e =>
    cases e with
    | addTerm _ | removeTerm _ => rfl
    | updateTerm t =>
      obtain ⟨v, hv, rfl⟩ := Option.map_eq_some_iff.1 hstep
      cases hfind : v.findUri t.termId with
      | none => simp only [KeepsSizes, hv, hfind]
      | some f =>
        have hi : i < vs.length := (List.getElem?_eq_some_iff.1 hv).1
        have hnew : v.edit (.updateTerm t) ∈ vs.set i (v.edit (.updateTerm t)) :=
          List.mem_set hi _
        have hsized := hws _ hnew
        have hindexed := (h v (List.mem_of_getElem? hv)).toIndexed
        simp only [KeepsSizes, hv, hfind, Bool.not_eq_true', decide_eq_false_iff_not]
        rintro ⟨hchar, hzero, hold⟩
        obtain ⟨hmem, hkey⟩ := mem_of_findUri hfind
        obtain ⟨-, u, hu, hid, -⟩ := hindexed.entry f hmem
        have hne : t.termId ≠ [] := by
          rw [← hkey, ← hid]
          exact hindexed.named _ u (hindexed.entry f hmem).1 hu
        -- the entry of the term is still there, and its size is zero
        have hedit : v.edit (.updateTerm t) =
            { v with refMap := v.refMap.modify f.2 (adopt t) } := by
          simp only [Vocabulary.edit, updateTerm, hfind, hne, hold, hchar, if_false, if_true]
          rfl
        rw [hedit] at hsized
        have hsize := hsized f hmem
        rw [get] at hsize hold
        rw [hu, Option.getD_some] at hold
        dsimp only at hsize
        rw [List.getElem?_modify_eq, hu] at hsize
        have hone : 1 ≤ t.termSize := hsize hold
        omega

/-- In every run, the live terms of type `char` have a size in all vocabularies that are reached, if
and only if no call updates one of them with a size of zero. -/
theorem chars_sized_iff {calls : List VocabularyCall} {vs : List Vocabulary}
    (hrun : run step [] calls = some vs) :
    (∀ us, ReachedIn step [] calls us → CharsSized us) ↔
      ∀ c us, HappensIn step [] calls c us → KeepsSizes us c = true := by
  have hall := steps_iff_of_invariant (P := CharsSized) (I := fun us => ∀ v ∈ us, SizedTable v)
    (K := fun _ _ _ => True) (Q := fun c us => KeepsSizes us c = true) (by simp)
    (fun us hus v hv => (hus v hv).live)
    (fun us c us' hus hstep hkeeps => ⟨sizedTable_step hus hstep hkeeps, trivial⟩)
    (fun us c us' hus hstep hsized _ => keepsSizes_of_charsSized hus hstep hsized) hrun
  rw [← hall]
  exact ⟨fun h => ⟨h, fun _ _ _ _ _ => trivial⟩, And.left⟩

/-- A `char` without a size, in a vocabulary that is copied. -/
def sizedCalls : List VocabularyCall :=
  [.create, .edit 0 (.addTerm { termId := ascii "c", termType := .char }), .copy 0,
    .edit 1 (.updateTerm { termId := ascii "c", termType := .char, termSize := 9 }),
    .incorporate 0 1]

theorem chars_sized_iff_copied :
    (run step [] sizedCalls).isSome = true ∧
      ∀ us, ReachedIn step [] sizedCalls us → CharsSized us := by
  refine ⟨by decide, ?_⟩
  cases hrun : run step [] sizedCalls with
  | none => exact absurd hrun (by decide)
  | some vs =>
    refine (chars_sized_iff hrun).2
      (meets_iff.1 (?_ : meets step (fun c us => KeepsSizes us c) _ _ = true))
    decide

/-- The update with a size of zero is accepted, for a term that got its size when it was added. -/
theorem not_chars_sized : ¬ ∀ calls us, ReachedIn step [] calls us → CharsSized us := by
  intro hall
  have hrun : run step [] [.create, .edit 0 (.addTerm { termId := ascii "c", termType := .char }),
      .edit 0 (.updateTerm { termId := ascii "c", termType := .char })] =
      some [{ refMap := [{}, { termId := ascii "c", termRef := 1, termType := .char }]
              uriMap := [(ascii "c", 1)]
              numTerms := 1 }] := by
    decide
  have h := hall _ _ ⟨_, [], (List.append_nil _).symm, hrun⟩
  have hsized := h _ (List.mem_singleton_self _) (ascii "c", 1) (List.mem_singleton_self _)
  exact absurd (hsized rfl) (by decide)

end Vocabulary

end PionCore.Platform
