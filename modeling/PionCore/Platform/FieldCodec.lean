/-
# Codecs that map names to terms

A JSON codec and an XML codec keep their fields in the same way: the fields are found by their
names, by the references of their terms, and in the order of the format.  The three point to the
same field objects.  A clone makes field objects of its own for the names and for the format, but
gets the references of the original.
-/
import PionCore.Lib.Runs
import PionCore.Platform.LogCodec

namespace PionCore.Platform

open PionCore.Lib

/-- `JSONField` and `XMLField`; the facet is given by its format. -/
structure CodecField where
  fieldName : Bytes
  term : Term
  timeFacet : Bytes := []
deriving DecidableEq

/-- The exceptions of a codec. -/
inductive FieldCodecError where
  | emptyField
  | emptyTerm
  | unknownTerm (termId : Bytes)
  | duplicateFieldName
  | duplicateFieldTerm
  | vocabulary (exception : VocabularyError)
deriving DecidableEq

inductive FieldCodecKind where
  | json
  | xml
deriving DecidableEq

/-- `JSONCodec` and `XMLCodec`; a pointer to a field object is its place among the objects.  The
tags are those of an XML codec. -/
structure FieldCodec where
  kind : FieldCodecKind
  fieldMap : List (Bytes × ℕ) := []
  format : List ℕ := []
  fieldPtrMap : List (ℕ × ℕ) := []
  eventTag : Bytes := []
  eventContainerTag : Bytes := []
  noEventsWritten : Bool := true
deriving DecidableEq

namespace FieldCodec

/-- `m_field_map.find`. -/
def findField (c : FieldCodec) (field : Bytes) : Option (Bytes × ℕ) :=
  c.fieldMap.find? fun e => e.1 == field

/-- `mapFieldToTerm`: the field objects and the codec behind the call. -/
def mapFieldToTerm (objects : List CodecField) (c : FieldCodec) (field : Bytes) (term : Term) :
    Except FieldCodecError (List CodecField × FieldCodec) :=
  if (c.findField field).isSome then .error .duplicateFieldName
  else
    .ok (objects ++ [{ fieldName := field, term := term, timeFacet := term.timeFacet [] }],
      { c with
        fieldMap := c.fieldMap ++ [(field, objects.length)]
        format := c.format ++ [objects.length] })

/-! ### Configuration -/

/-- The configuration: the names of the fields with the identifiers of their terms, and the tags
of an XML codec. -/
structure Config where
  fields : List (Bytes × Bytes) := []
  eventTag : Option Bytes := none
  eventContainerTag : Option Bytes := none
deriving DecidableEq

/-- The loop of `setConfig` over the fields. -/
def mapFields (v : Vocabulary) (objects : List CodecField) (c : FieldCodec) :
    List (Bytes × Bytes) → Except FieldCodecError (List CodecField × FieldCodec)
  | [] => .ok (objects, c)
  | (field, termId) :: rest =>
    if firstIsNul field then .error .emptyField
    else if firstIsNul termId then .error .emptyTerm
    else if v.findTerm termId = 0 then .error (.unknownTerm termId)
    else
      match mapFieldToTerm objects c field (v.get (v.findTerm termId)) with
      | .ok (objects, c) => mapFields v objects c rest
      | .error exception => .error exception
where
  firstIsNul (s : Bytes) : Bool := s.headD 0 == 0

/-- The loop of `setConfig` that finds the fields by the references of their terms. -/
def pointToFields (objects : List CodecField) :
    List (Bytes × ℕ) → List (ℕ × ℕ) → Except FieldCodecError (List (ℕ × ℕ))
  | [], ptrMap => .ok ptrMap
  | (_, a) :: rest, ptrMap =>
    match objects[a]? with
    | none => pointToFields objects rest ptrMap
    | some f =>
      if ptrMap.any fun e => e.1 == f.term.termRef then .error .duplicateFieldTerm
      else pointToFields objects rest (ptrMap ++ [(f.term.termRef, a)])

/-- The tag of an event; an option that is empty is not found. -/
def eventTagOf (config : Config) : Bytes :=
  match config.eventTag with
  | some (c :: tag) => c :: tag
  | _ => ascii "Event"

/-- The tag around the events, which is empty if the configuration has an empty element. -/
def eventContainerTagOf (config : Config) : Bytes :=
  match config.eventContainerTag with
  | some tag => tag
  | none => ascii "Events"

/-- A new codec. -/
def start (kind : FieldCodecKind) (config : Config) : FieldCodec :=
  match kind with
  | .json => { kind := .json }
  | .xml =>
    { kind := .xml
      eventTag := eventTagOf config
      eventContainerTag := eventContainerTagOf config }

/-- `setConfig` of a new codec. -/
def setConfig (kind : FieldCodecKind) (v : Vocabulary) (config : Config) :
    Except FieldCodecError (List CodecField × FieldCodec) :=
  match mapFields v [] (start kind config) config.fields with
  | .ok (objects, c) =>
    match pointToFields objects c.fieldMap [] with
    | .ok ptrMap => .ok (objects, { c with fieldPtrMap := ptrMap })
    | .error exception => .error exception
  | .error exception => .error exception

/-! ### Clones and updates -/

/-- The fields of the format. -/
def fields (objects : List CodecField) (c : FieldCodec) : List CodecField :=
  c.format.filterMap fun a => objects[a]?

/-- The loop of `clone` over the fields of the original. -/
def cloneFields (objects : List CodecField) (c : FieldCodec) :
    List CodecField → Except FieldCodecError (List CodecField × FieldCodec)
  | [] => .ok (objects, c)
  | f :: rest =>
    match mapFieldToTerm objects c f.fieldName f.term with
    | .ok (objects, c) => cloneFields objects c rest
    | .error exception => .error exception

/-- `clone`: the field objects behind the call, and the clone. -/
def clone (objects : List CodecField) (c : FieldCodec) :
    Except FieldCodecError (List CodecField × FieldCodec) :=
  match cloneFields objects { kind := c.kind } (fields objects c) with
  | .ok (objects, cloned) =>
    .ok (objects, { cloned with
      fieldPtrMap := c.fieldPtrMap
      eventTag := c.eventTag
      eventContainerTag := c.eventContainerTag })
  | .error exception => .error exception

/-- A field gets the new data of its term. -/
def withTerm (f : CodecField) (t : Term) : CodecField :=
  { f with term := t, timeFacet := t.timeFacet f.timeFacet }

/-- The loop of `updateVocabulary` over the format. -/
def updateFields (v : Vocabulary) :
    List ℕ → List CodecField → List CodecField × Option FieldCodecError
  | [], objects => (objects, none)
  | a :: rest, objects =>
    match objects[a]? with
    | none => updateFields v rest objects
    | some f =>
      match v.refreshTerm f.term with
      | .ok t => updateFields v rest (objects.set a (withTerm f t))
      | .error exception => (objects, some (.vocabulary exception))

/-- `updateVocabulary`: the field objects behind the call, and the exception that it throws. -/
def updateVocabulary (objects : List CodecField) (c : FieldCodec) (v : Vocabulary) :
    List CodecField × Option FieldCodecError :=
  updateFields v c.format objects

/-! ### Runs -/

/-- The field objects, and the codecs with the vocabularies that they were given last. -/
structure World where
  objects : List CodecField
  codecs : List (FieldCodec × Vocabulary)
deriving DecidableEq

/-- A call of a codec, which is given by its number.  The vocabulary of an update is given by the
calls that made it. -/
inductive Step where
  | clone (codec : ℕ)
  | updateVocabulary (codec : ℕ) (edits : List Vocabulary.Edit)
deriving DecidableEq

/-- The codec of a call. -/
def Step.codec : Step → ℕ
  | .clone i => i
  | .updateVocabulary i _ => i

def step (w : World) : Step → Option World
  | .clone i =>
    match w.codecs[i]? with
    | none => none
    | some (c, v) =>
      match clone w.objects c with
      | .ok (objects, cloned) => some ⟨objects, w.codecs ++ [(cloned, v)]⟩
      | .error _ => some w
  | .updateVocabulary i edits =>
    match w.codecs[i]? with
    | none => none
    | some (c, _) =>
      some ⟨(updateVocabulary w.objects c (Vocabulary.make edits)).1,
        w.codecs.set i (c, Vocabulary.make edits)⟩

/-- The field objects that are reached through the names, the format and the references. -/
def Reaches (c : FieldCodec) (a : ℕ) : Prop :=
  a ∈ c.fieldMap.map Prod.snd ∨ a ∈ c.format ∨ a ∈ c.fieldPtrMap.map Prod.snd

/-- A field carries the term that the vocabulary has for its identifier. -/
def CarriesTerm (v : Vocabulary) (f : CodecField) : Prop :=
  v.findTerm f.term.termId ≠ 0 ∧ f.term = v.get (v.findTerm f.term.termId)

/-- In each codec, the names, the format and the references lead to the same field objects, which
are its own, and carry the current terms. -/
structure Consistent (w : World) : Prop where
  names : ∀ p ∈ w.codecs, ∀ a, a ∈ p.1.fieldMap.map Prod.snd ↔ a ∈ p.1.format
  references : ∀ p ∈ w.codecs, ∀ a, a ∈ p.1.fieldPtrMap.map Prod.snd ↔ a ∈ p.1.format
  own : ∀ (i j : ℕ) (p q : FieldCodec × Vocabulary), w.codecs[i]? = some p →
    w.codecs[j]? = some q → i ≠ j → ∀ a, p.1.Reaches a → ¬ q.1.Reaches a
  current : ∀ p ∈ w.codecs, ∀ a, p.1.Reaches a →
    ∃ f, w.objects[a]? = some f ∧ CarriesTerm p.2 f

/-- A call changes no field object that another codec reaches. -/
def Independent (e : Step) (w w' : World) : Prop :=
  ∀ (j : ℕ) (q : FieldCodec × Vocabulary), j ≠ e.codec → w.codecs[j]? = some q →
    w'.codecs[j]? = some q ∧ ∀ a, q.1.Reaches a → w'.objects[a]? = w.objects[a]?

/-- A codec that is cloned has no fields, and an update defines the terms of all fields. -/
def Harmless : Step → World → Prop
  | .clone i, w => ∀ p, w.codecs[i]? = some p → p.1.format = []
  | .updateVocabulary i edits, w => ∀ p, w.codecs[i]? = some p → ∀ a ∈ p.1.format,
      ∀ f, w.objects[a]? = some f → (Vocabulary.make edits).findTerm f.term.termId ≠ 0

variable {objects objects' : List CodecField} {c d : FieldCodec} {v : Vocabulary} {w w' : World}

/-- What holds of every codec: the format has the fields of the names, no name is mapped twice,
and the objects have these names. -/
structure Mapped (objects : List CodecField) (c : FieldCodec) : Prop where
  format : c.format = c.fieldMap.map Prod.snd
  nodup : (c.fieldMap.map Prod.fst).Nodup
  name : ∀ e ∈ c.fieldMap, (objects[e.2]?).map CodecField.fieldName = some e.1

lemma findField_isSome {field : Bytes} :
    (c.findField field).isSome ↔ field ∈ c.fieldMap.map Prod.fst := by
  simp [findField]

lemma Mapped.mapFieldToTerm (h : Mapped objects c) {field : Bytes} {term : Term}
    (hmap : mapFieldToTerm objects c field term = .ok (objects', d)) : Mapped objects' d := by
  rw [FieldCodec.mapFieldToTerm] at hmap
  split_ifs at hmap with hdup
  obtain ⟨rfl, rfl⟩ := Prod.mk.inj (Except.ok.inj hmap)
  rw [findField_isSome] at hdup
  refine ⟨by simp [h.format], ?_, ?_⟩
  · rw [List.map_append]
    exact List.nodup_append_comm.1 (List.nodup_cons.2 ⟨hdup, h.nodup⟩)
  · intro e he
    rcases List.mem_append.1 he with he | he
    · have hname := h.name e he
      obtain ⟨f, hf, -⟩ := Option.map_eq_some_iff.1 hname
      rwa [List.getElem?_append_left (List.getElem?_eq_some_iff.1 hf).1]
    · obtain rfl := List.mem_singleton.1 he
      simp

/-- The old field objects are still there, with their names and terms' identifiers. -/
def Keeps (objects objects' : List CodecField) : Prop :=
  ∀ (a : ℕ) (f : CodecField), objects[a]? = some f →
    ∃ g : CodecField, objects'[a]? = some g ∧ g.fieldName = f.fieldName ∧
      g.term.termId = f.term.termId

lemma Keeps.refl (objects : List CodecField) : Keeps objects objects :=
  fun _ f hf => ⟨f, hf, rfl, rfl⟩

lemma Keeps.trans {objects'' : List CodecField} (h : Keeps objects objects')
    (h' : Keeps objects' objects'') : Keeps objects objects'' := by
  intro a f hf
  obtain ⟨g, hg, hname, hid⟩ := h a f hf
  obtain ⟨k, hk, hname', hid'⟩ := h' a g hg
  exact ⟨k, hk, hname'.trans hname, hid'.trans hid⟩

lemma keeps_append (objects more : List CodecField) : Keeps objects (objects ++ more) := by
  intro a f hf
  refine ⟨f, ?_, rfl, rfl⟩
  rw [List.getElem?_append_left (List.getElem?_eq_some_iff.1 hf).1, hf]

lemma Mapped.keeps (h : Mapped objects c) (hkeeps : Keeps objects objects') :
    Mapped objects' c where
  format := h.format
  nodup := h.nodup
  name := by
    intro e he
    obtain ⟨f, hf, hname⟩ := Option.map_eq_some_iff.1 (h.name e he)
    obtain ⟨g, hg, hsame, -⟩ := hkeeps e.2 f hf
    rw [hg, Option.map_some, hsame, hname]

/-! ### Clones -/

/-- The names of the fields are those of the map. -/
lemma Mapped.fieldNames (h : Mapped objects c) :
    (fields objects c).map CodecField.fieldName = c.fieldMap.map Prod.fst := by
  have hname := h.name
  rw [fields, h.format]
  generalize c.fieldMap = m at hname
  induction m with
  | nil => rfl
  | cons e m ih =>
    obtain ⟨f, hf, hfe⟩ := Option.map_eq_some_iff.1 (hname e List.mem_cons_self)
    rw [List.map_cons, List.filterMap_cons, hf, List.map_cons, List.map_cons, hfe,
      ih fun e' he' => hname e' (List.mem_cons_of_mem _ he')]

/-- The loop of `clone` succeeds if the names of the fields are new and different. -/
lemma cloneFields_ok (fs : List CodecField) (hmapped : Mapped objects c)
    (hnames : (c.fieldMap.map Prod.fst ++ fs.map CodecField.fieldName).Nodup) :
    ∃ more d, cloneFields objects c fs = .ok (objects ++ more, d) ∧ Mapped (objects ++ more) d ∧
      more.length = fs.length ∧
      d.fieldMap = c.fieldMap ++ (fs.map CodecField.fieldName).zip
        (List.range' objects.length fs.length) := by
  induction fs generalizing objects c with
  | nil => exact ⟨[], c, by rw [List.append_nil]; rfl, by rwa [List.append_nil], rfl, by simp⟩
  | cons f fs ih =>
    rw [List.map_cons] at hnames
    have hnew : ¬ (c.findField f.fieldName).isSome := by
      rw [findField_isSome]
      intro hmem
      exact (List.nodup_append.1 hnames).2.2 _ hmem _ List.mem_cons_self rfl
    have hmap : mapFieldToTerm objects c f.fieldName f.term =
        .ok (objects ++ [⟨f.fieldName, f.term, f.term.timeFacet []⟩],
          { c with
            fieldMap := c.fieldMap ++ [(f.fieldName, objects.length)]
            format := c.format ++ [objects.length] }) := by
      rw [mapFieldToTerm, if_neg hnew]
    obtain ⟨more, d, hclone, hd, hlen, hfieldMap⟩ := ih (hmapped.mapFieldToTerm hmap) (by
      simpa using hnames)
    refine ⟨⟨f.fieldName, f.term, f.term.timeFacet []⟩ :: more, d, ?_, ?_, by simp [hlen], ?_⟩
    · rw [cloneFields, hmap]
      dsimp only
      rw [hclone, List.append_assoc]
      rfl
    · rwa [List.append_assoc] at hd
    · rw [hfieldMap, List.append_assoc, List.length_append]
      rfl

/-- A clone gets as many new field objects as the original has, and the references of the
original. -/
lemma clone_ok (hmapped : Mapped objects c) :
    ∃ more d, clone objects c = .ok (objects ++ more, d) ∧ Mapped (objects ++ more) d ∧
      d.fieldPtrMap = c.fieldPtrMap ∧ (c.format = [] → more = [] ∧ d.fieldMap = []) := by
  have hstart : Mapped objects { kind := c.kind } := ⟨rfl, List.nodup_nil, by simp⟩
  obtain ⟨more, d, hclone, hd, hlen, hfieldMap⟩ := cloneFields_ok (fields objects c) hstart (by
    rw [hmapped.fieldNames]
    exact hmapped.nodup)
  refine ⟨more, { d with
    fieldPtrMap := c.fieldPtrMap
    eventTag := c.eventTag
    eventContainerTag := c.eventContainerTag }, ?_, ⟨hd.format, hd.nodup, hd.name⟩, rfl, ?_⟩
  · rw [clone, hclone]
  · intro hformat
    have hnone : fields objects c = [] := by rw [fields, hformat]; rfl
    rw [hnone] at hlen hfieldMap
    exact ⟨List.length_eq_zero_iff.1 hlen, by simpa using hfieldMap⟩

/-! ### Updates -/

lemma updateFields_keeps (hv : v.Sound) (as : List ℕ) (objects : List CodecField) :
    Keeps objects (updateFields v as objects).1 := by
  induction as generalizing objects with
  | nil => exact Keeps.refl objects
  | cons a as ih =>
    rw [updateFields]
    cases hf : objects[a]? with
    | none => exact ih objects
    | some f =>
      dsimp only
      cases ht : v.refreshTerm f.term with
      | error x => exact Keeps.refl objects
      | ok t =>
        refine Keeps.trans ?_ (ih (objects.set a (withTerm f t)))
        intro b g hg
        by_cases hab : a = b
        · subst hab
          rw [hf] at hg
          obtain rfl := Option.some.inj hg
          refine ⟨withTerm f t, ?_, rfl, (hv.termId_of_refreshTerm ht).2.2⟩
          rw [List.getElem?_set_self (List.getElem?_eq_some_iff.1 hf).1]
        · exact ⟨g, by rwa [List.getElem?_set_ne hab], rfl, rfl⟩

/-- A field object that is not in the format stays as it is. -/
lemma updateFields_of_notMem (as : List ℕ) (objects : List CodecField) {b : ℕ} (hb : b ∉ as) :
    (updateFields v as objects).1[b]? = objects[b]? := by
  induction as generalizing objects with
  | nil => rfl
  | cons a as ih =>
    have hrest : b ∉ as := fun hmem => hb (List.mem_cons_of_mem _ hmem)
    rw [updateFields]
    cases hf : objects[a]? with
    | none => exact ih objects hrest
    | some f =>
      dsimp only
      cases v.refreshTerm f.term with
      | error x => rfl
      | ok t =>
        dsimp only
        rw [ih _ hrest, List.getElem?_set_ne]
        rintro rfl
        exact hb List.mem_cons_self

lemma carriesTerm_withTerm (hv : v.Sound) {f : CodecField} {t : Term}
    (ht : v.refreshTerm f.term = .ok t) : CarriesTerm v (withTerm f t) := by
  obtain ⟨hne, ht', hid⟩ := hv.termId_of_refreshTerm ht
  have hfind : v.findTerm t.termId = v.findTerm f.term.termId := by rw [hid]
  exact ⟨(congrArg (· ≠ 0) hfind).mpr hne, ht'.trans (by rw [← hfind]; rfl)⟩

/-- If the vocabulary defines the terms of the format, then these fields get the current terms. -/
lemma updateFields_carriesTerm (hv : v.Sound) (as : List ℕ) {objects : List CodecField}
    (hdef : ∀ a ∈ as, ∀ f, objects[a]? = some f → v.findTerm f.term.termId ≠ 0) {b : ℕ}
    {g : CodecField} (hg : (updateFields v as objects).1[b]? = some g)
    (hb : b ∈ as ∨ ∀ f, objects[b]? = some f → CarriesTerm v f) : CarriesTerm v g := by
  induction as generalizing objects with
  | nil => exact hb.resolve_left (List.not_mem_nil) g hg
  | cons a as ih =>
    rw [updateFields] at hg
    have hrest : ∀ c ∈ as, ∀ f, objects[c]? = some f → v.findTerm f.term.termId ≠ 0 :=
      fun c hc => hdef c (List.mem_cons_of_mem _ hc)
    cases hf : objects[a]? with
    | none =>
      rw [hf] at hg
      refine ih hrest hg ?_
      rcases hb with hb | hb
      · rcases List.mem_cons.1 hb with rfl | hb
        · exact Or.inr fun f hf' => absurd (hf.symm.trans hf') (by simp)
        · exact Or.inl hb
      · exact Or.inr hb
    | some f =>
      rw [hf] at hg
      have hne := hdef a List.mem_cons_self f hf
      have ht : v.refreshTerm f.term = .ok (v.get (v.findTerm f.term.termId)) := by
        rw [Vocabulary.refreshTerm, if_neg hne]
      simp only [ht] at hg
      have hid := (hv.termId_of_refreshTerm ht).2.2
      refine ih ?_ hg ?_
      · intro c hc k hk
        by_cases hac : a = c
        · subst hac
          rw [List.getElem?_set_self (List.getElem?_eq_some_iff.1 hf).1] at hk
          obtain rfl := Option.some.inj hk
          exact (congrArg (fun i => v.findTerm i ≠ 0) hid).mpr hne
        · rw [List.getElem?_set_ne hac] at hk
          exact hrest c hc k hk
      · -- the renewed field carries its term, and the others are as they were
        by_cases hab : a = b
        · right
          intro k hk
          subst hab
          rw [List.getElem?_set_self (List.getElem?_eq_some_iff.1 hf).1] at hk
          obtain rfl := Option.some.inj hk
          exact carriesTerm_withTerm hv ht
        · rcases hb with hb | hb
          · exact Or.inl (List.mem_of_ne_of_mem (Ne.symm hab) hb)
          · right
            intro k hk
            rw [List.getElem?_set_ne hab] at hk
            exact hb k hk

/-! ### A step -/

lemma getElem?_snoc {α : Type*} {l : List α} {x y : α} {i : ℕ} (h : (l ++ [x])[i]? = some y) :
    l[i]? = some y ∨ y = x := by
  rcases List.mem_append.1 (List.mem_of_getElem? h) with - | hy
  · by_cases hi : i < l.length
    · exact Or.inl (by rwa [List.getElem?_append_left hi] at h)
    · right
      rw [List.getElem?_append_right (not_lt.1 hi)] at h
      exact List.mem_singleton.1 (List.mem_of_getElem? h)
  · exact Or.inr (List.mem_singleton.1 hy)

/-- Every codec is mapped, whatever its field objects carry. -/
def AllMapped (w : World) : Prop := ∀ p ∈ w.codecs, Mapped w.objects p.1

lemma AllMapped.step (h : AllMapped w) {e : Step} (hstep : step w e = some w') :
    AllMapped w' := by
  cases e with
  | clone i =>
    rw [FieldCodec.step] at hstep
    cases hi : w.codecs[i]? with
    | none => simp [hi] at hstep
    | some p =>
      obtain ⟨c, v⟩ := p
      obtain ⟨more, d, hclone, hd, -⟩ := clone_ok (h (c, v) (List.mem_of_getElem? hi))
      simp only [hi, hclone, Option.some.injEq] at hstep
      subst hstep
      intro q hq
      rcases List.mem_append.1 hq with hq | hq
      · exact (h q hq).keeps (keeps_append _ _)
      · obtain rfl := List.mem_singleton.1 hq
        exact hd
  | updateVocabulary i edits =>
    rw [FieldCodec.step] at hstep
    cases hi : w.codecs[i]? with
    | none => simp [hi] at hstep
    | some p =>
      obtain ⟨c, v⟩ := p
      simp only [hi, Option.some.injEq] at hstep
      subst hstep
      have hkeeps := updateFields_keeps (Vocabulary.sound_make edits) c.format w.objects
      intro q hq
      rcases List.mem_or_eq_of_mem_set hq with hq | rfl
      · exact (h q hq).keeps hkeeps
      · exact (h (c, v) (List.mem_of_getElem? hi)).keeps hkeeps

/-- A codec with fields shares its references with a clone. -/
lemma consistent_clone (h : Consistent w) (hmapped : AllMapped w) {i : ℕ}
    (hstep : step w (.clone i) = some w') :
    (Consistent w' ∧ Independent (.clone i) w w') ↔ Harmless (.clone i) w := by
  rw [FieldCodec.step] at hstep
  cases hi : w.codecs[i]? with
  | none => simp [hi] at hstep
  | some p =>
    obtain ⟨c, v⟩ := p
    have hmem := List.mem_of_getElem? hi
    have hlt := (List.getElem?_eq_some_iff.1 hi).1
    obtain ⟨more, d, hclone, hd, hptr, hempty⟩ := clone_ok (hmapped (c, v) hmem)
    simp only [hi, hclone, Option.some.injEq] at hstep
    subst hstep
    constructor
    · rintro ⟨hw, -⟩ p hp
      obtain rfl := Option.some.inj (hi.symm.trans hp)
      by_contra hne
      obtain ⟨a, ha⟩ := List.exists_mem_of_ne_nil _ hne
      have href := (h.references _ hmem a).2 ha
      refine hw.own i w.codecs.length (c, v) (d, v) ?_ List.getElem?_concat_length hlt.ne a
        (Or.inr (Or.inl ha)) (Or.inr (Or.inr ?_))
      · rw [List.getElem?_append_left hlt, hi]
      · rwa [hptr]
    · intro hharmless
      have hnone : c.format = [] := hharmless (c, v) hi
      obtain ⟨rfl, hfieldMap⟩ := hempty hnone
      have hformat : d.format = [] := by rw [hd.format, hfieldMap]; rfl
      have hrefs : d.fieldPtrMap = [] := by
        rw [hptr]
        by_contra hne
        obtain ⟨e, he⟩ := List.exists_mem_of_ne_nil _ hne
        have := (h.references _ hmem e.2).1 (List.mem_map_of_mem he)
        rw [hnone] at this
        exact absurd this List.not_mem_nil
      have hnot : ∀ a, ¬ d.Reaches a := by
        intro a ha
        rw [Reaches, hformat, hfieldMap, hrefs] at ha
        simp at ha
      refine ⟨⟨?_, ?_, ?_, ?_⟩, ?_⟩
      · intro q hq a
        rcases List.mem_append.1 hq with hq | hq
        · exact h.names q hq a
        · obtain rfl := List.mem_singleton.1 hq
          rw [hfieldMap, hformat]
          rfl
      · intro q hq a
        rcases List.mem_append.1 hq with hq | hq
        · exact h.references q hq a
        · obtain rfl := List.mem_singleton.1 hq
          rw [hrefs, hformat]
          rfl
      · intro j k p q hp hq hjk a hpa hqa
        rcases getElem?_snoc hp with hp | rfl
        · rcases getElem?_snoc hq with hq | rfl
          · exact h.own j k p q hp hq hjk a hpa hqa
          · exact hnot a hqa
        · exact hnot a hpa
      · intro q hq a ha
        rcases List.mem_append.1 hq with hq | hq
        · rw [List.append_nil]
          exact h.current q hq a ha
        · obtain rfl := List.mem_singleton.1 hq
          exact absurd ha (hnot a)
      · intro j q hj hq
        refine ⟨?_, fun a _ => by rw [List.append_nil]⟩
        rw [List.getElem?_append_left (List.getElem?_eq_some_iff.1 hq).1, hq]

/-- An update renews the fields of one codec, if the vocabulary defines their terms. -/
lemma consistent_updateVocabulary (h : Consistent w) {i : ℕ} {edits : List Vocabulary.Edit}
    (hstep : step w (.updateVocabulary i edits) = some w') :
    (Consistent w' ∧ Independent (.updateVocabulary i edits) w w') ↔
      Harmless (.updateVocabulary i edits) w := by
  have hv := Vocabulary.sound_make edits
  rw [FieldCodec.step] at hstep
  cases hi : w.codecs[i]? with
  | none => simp [hi] at hstep
  | some p =>
    obtain ⟨c, v⟩ := p
    have hmem := List.mem_of_getElem? hi
    have hlt := (List.getElem?_eq_some_iff.1 hi).1
    simp only [hi, Option.some.injEq] at hstep
    subst hstep
    have hkeeps := updateFields_keeps hv c.format w.objects
    have hreach : ∀ a, c.Reaches a ↔ a ∈ c.format := by
      intro a
      rw [Reaches, h.names _ hmem, h.references _ hmem, or_self, or_self]
    constructor
    · rintro ⟨hw, -⟩ p hp a ha f hf
      obtain rfl := Option.some.inj (hi.symm.trans hp)
      have hset : (c, Vocabulary.make edits) ∈ w.codecs.set i (c, Vocabulary.make edits) :=
        List.mem_set hlt _
      obtain ⟨g, hg, hcarries⟩ := hw.current _ hset a ((hreach a).2 ha)
      obtain ⟨g', hg', -, hid⟩ := hkeeps a f hf
      obtain rfl := Option.some.inj (hg.symm.trans hg')
      exact hid ▸ hcarries.1
    · intro hharmless
      have hdef := hharmless (c, v) hi
      have hsame : ∀ j q, j ≠ i → w.codecs[j]? = some q → ∀ a, q.1.Reaches a →
          (updateFields (Vocabulary.make edits) c.format w.objects).1[a]? = w.objects[a]? := by
        intro j q hj hq a ha
        refine updateFields_of_notMem _ _ fun hmem' => ?_
        exact h.own j i q (c, v) hq hi hj a ha ((hreach a).2 hmem')
      -- a codec behind the update is the one that is updated, or another one
      have hcases : ∀ j q, (w.codecs.set i (c, Vocabulary.make edits))[j]? = some q →
          j = i ∧ q = (c, Vocabulary.make edits) ∨ j ≠ i ∧ w.codecs[j]? = some q := by
        intro j q hq
        by_cases hj : j = i
        · subst hj
          rw [List.getElem?_set_self hlt] at hq
          exact Or.inl ⟨rfl, (Option.some.inj hq).symm⟩
        · rw [List.getElem?_set_ne (Ne.symm hj)] at hq
          exact Or.inr ⟨hj, hq⟩
      have hold : ∀ q ∈ w.codecs.set i (c, Vocabulary.make edits), ∃ v', (q.1, v') ∈ w.codecs := by
        intro q hq
        obtain ⟨j, hj⟩ := List.getElem?_of_mem hq
        rcases hcases j q hj with ⟨-, rfl⟩ | ⟨-, hq'⟩
        · exact ⟨v, hmem⟩
        · exact ⟨q.2, List.mem_of_getElem? hq'⟩
      refine ⟨⟨?_, ?_, ?_, ?_⟩, ?_⟩
      · intro q hq
        obtain ⟨v', hq'⟩ := hold q hq
        exact h.names (q.1, v') hq'
      · intro q hq
        obtain ⟨v', hq'⟩ := hold q hq
        exact h.references (q.1, v') hq'
      · intro j k p q hp hq hjk
        rcases hcases j p hp with ⟨rfl, rfl⟩ | ⟨hj, hp'⟩ <;>
          rcases hcases k q hq with ⟨rfl, rfl⟩ | ⟨hk, hq'⟩
        · exact absurd rfl hjk
        · exact h.own j k (c, v) q hi hq' hjk
        · exact h.own j k p (c, v) hp' hi hjk
        · exact h.own j k p q hp' hq' hjk
      · intro q hq a ha
        obtain ⟨j, hj⟩ := List.getElem?_of_mem hq
        rcases hcases j q hj with ⟨-, rfl⟩ | ⟨hne, hq'⟩
        · obtain ⟨f, hf, -⟩ := h.current (c, v) hmem a ha
          obtain ⟨g, hg, -⟩ := hkeeps a f hf
          exact ⟨g, hg, updateFields_carriesTerm hv c.format hdef hg (Or.inl ((hreach a).1 ha))⟩
        · obtain ⟨f, hf, hcarries⟩ := h.current q (List.mem_of_getElem? hq') a ha
          exact ⟨f, (hsame j q hne hq' a ha).trans hf, hcarries⟩
      · intro j q hj hq
        refine ⟨?_, hsame j q hj hq⟩
        dsimp only
        rw [List.getElem?_set_ne (Ne.symm hj : i ≠ j), hq]

lemma consistent_step (h : Consistent w) (hmapped : AllMapped w) {e : Step}
    (hstep : step w e = some w') :
    (Consistent w' ∧ Independent e w w') ↔ Harmless e w := by
  cases e with
  | clone i => exact consistent_clone h hmapped hstep
  | updateVocabulary i edits => exact consistent_updateVocabulary h hstep

/-! ### A codec as it has been configured -/

lemma mapFieldToTerm_objects {field : Bytes} {term : Term}
    (hmap : mapFieldToTerm objects c field term = .ok (objects', d)) :
    objects' = objects ++ [⟨field, term, term.timeFacet []⟩] ∧
      d.format = c.format ++ [objects.length] := by
  rw [mapFieldToTerm] at hmap
  split_ifs at hmap
  obtain ⟨rfl, rfl⟩ := Prod.mk.inj (Except.ok.inj hmap)
  exact ⟨rfl, rfl⟩

/-- What the first loop of `setConfig` makes. -/
structure Configuring (v : Vocabulary) (objects : List CodecField) (c : FieldCodec) : Prop
    extends Mapped objects c where
  current : ∀ f ∈ objects, CarriesTerm v f
  inside : ∀ a ∈ c.format, a < objects.length

lemma mapFields_configuring (hv : v.Sound) (cfgs : List (Bytes × Bytes))
    (h : Configuring v objects c) (hc : mapFields v objects c cfgs = .ok (objects', d)) :
    Configuring v objects' d := by
  induction cfgs generalizing objects c with
  | nil =>
    obtain ⟨rfl, rfl⟩ := Prod.mk.inj (Except.ok.inj hc)
    exact h
  | cons cfg cfgs ih =>
    obtain ⟨field, termId⟩ := cfg
    rw [mapFields] at hc
    split_ifs at hc with hfield hterm hdefined
    cases hmap : mapFieldToTerm objects c field (v.get (v.findTerm termId)) with
    | error x => simp [hmap] at hc
    | ok p =>
      obtain ⟨objects'', c'⟩ := p
      simp only [hmap] at hc
      obtain ⟨rfl, hformat⟩ := mapFieldToTerm_objects hmap
      refine ih ⟨h.toMapped.mapFieldToTerm hmap, ?_, ?_⟩ hc
      · intro f hf
        rcases List.mem_append.1 hf with hf | hf
        · exact h.current f hf
        · obtain rfl := List.mem_singleton.1 hf
          have hid := (hv.get_findTerm hdefined).1
          exact ⟨(congrArg (fun i => v.findTerm i ≠ 0) hid).mpr hdefined,
            (congrArg (fun i => v.get (v.findTerm i)) hid).symm⟩
      · intro a ha
        rw [hformat] at ha
        rw [List.length_append, List.length_singleton]
        rcases List.mem_append.1 ha with ha | ha
        · exact Nat.lt_succ_of_lt (h.inside a ha)
        · obtain rfl := List.mem_singleton.1 ha
          exact Nat.lt_succ_self _

/-- The references lead to the fields of the map. -/
lemma pointToFields_snd (m : List (Bytes × ℕ)) (ptrMap : List (ℕ × ℕ)) {ptrMap' : List (ℕ × ℕ)}
    (hin : ∀ e ∈ m, e.2 < objects.length)
    (h : pointToFields objects m ptrMap = .ok ptrMap') :
    ptrMap'.map Prod.snd = ptrMap.map Prod.snd ++ m.map Prod.snd := by
  induction m generalizing ptrMap with
  | nil =>
    obtain rfl := Except.ok.inj h
    simp
  | cons e m ih =>
    obtain ⟨name, a⟩ := e
    have ha := List.getElem?_eq_getElem (hin (name, a) List.mem_cons_self)
    rw [pointToFields, ha] at h
    dsimp only at h
    split_ifs at h with hdup
    rw [ih _ (fun e he => hin e (List.mem_cons_of_mem _ he)) h]
    simp

/-- A new codec with its vocabulary. -/
def configured (v : Vocabulary) (p : List CodecField × FieldCodec) : World := ⟨p.1, [(p.2, v)]⟩

lemma setConfig_consistent (hv : v.Sound) {kind : FieldCodecKind} {config : Config}
    {p : List CodecField × FieldCodec} (h : setConfig kind v config = .ok p) :
    Consistent (configured v p) ∧ AllMapped (configured v p) := by
  rw [setConfig] at h
  cases hmap : mapFields v [] (start kind config) config.fields with
  | error x => simp [hmap] at h
  | ok q =>
    obtain ⟨objects, c⟩ := q
    simp only [hmap] at h
    cases hptr : pointToFields objects c.fieldMap [] with
    | error x => simp [hptr] at h
    | ok ptrMap =>
      simp only [hptr, Except.ok.injEq] at h
      subst h
      have hstart : Configuring v [] (start kind config) := by
        cases kind <;> exact ⟨⟨rfl, List.nodup_nil, by simp [start]⟩, by simp, by simp [start]⟩
      have hc := mapFields_configuring hv _ hstart hmap
      have hrefs : ptrMap.map Prod.snd = c.format := by
        rw [pointToFields_snd _ _ _ hptr, hc.format]
        · rfl
        · intro e he
          exact hc.inside _ (hc.format ▸ List.mem_map_of_mem he)
      have honly : ∀ q ∈ (configured v (objects, { c with fieldPtrMap := ptrMap })).codecs,
          q = ({ c with fieldPtrMap := ptrMap }, v) := fun q hq => List.mem_singleton.1 hq
      refine ⟨⟨?_, ?_, ?_, ?_⟩, ?_⟩
      · intro q hq a
        obtain rfl := honly q hq
        dsimp only
        rw [hc.format]
      · intro q hq a
        obtain rfl := honly q hq
        dsimp only
        rw [hrefs]
      · intro i j p q hp hq hij
        have hi := (List.getElem?_eq_some_iff.1 hp).1
        have hj := (List.getElem?_eq_some_iff.1 hq).1
        simp only [configured, List.length_singleton] at hi hj
        omega
      · intro q hq a ha
        obtain rfl := honly q hq
        have hmem : a ∈ c.format := by
          rcases ha with ha | ha | ha
          · rwa [← hc.format] at ha
          · exact ha
          · rwa [← hrefs]
        have hlt := hc.inside a hmem
        exact ⟨objects[a], List.getElem?_eq_getElem hlt, hc.current _ (List.getElem_mem hlt)⟩
      · intro q hq
        obtain rfl := honly q hq
        exact ⟨hc.format, hc.nodup, hc.name⟩

/-- For every configuration and every sequence of clones and updates: the codecs are consistent
in every state, and no call changes a field of another codec, if and only if no codec with fields
is cloned, and each update defines the terms of the codec's fields. -/
theorem fieldCodecs_consistent_iff {kind : FieldCodecKind} {edits : List Vocabulary.Edit}
    {config : Config} {p : List CodecField × FieldCodec} {w : World} {steps : List Step}
    (hconfig : setConfig kind (Vocabulary.make edits) config = .ok p)
    (hrun : run step (configured (Vocabulary.make edits) p) steps = some w) :
    ((∀ u, ReachedIn step (configured (Vocabulary.make edits) p) steps u → Consistent u) ∧
      ∀ e u u', HappensIn step (configured (Vocabulary.make edits) p) steps e u →
        step u e = some u' → Independent e u u') ↔
    ∀ e u, HappensIn step (configured (Vocabulary.make edits) p) steps e u → Harmless e u := by
  obtain ⟨hconsistent, hmapped⟩ := setConfig_consistent (Vocabulary.sound_make edits) hconfig
  have hall : ∀ u, ReachedIn step (configured (Vocabulary.make edits) p) steps u → AllMapped u := by
    rintro u ⟨before, after, -, hu⟩
    exact run_invariant (fun _ _ _ h he => h.step he) hmapped hu
  have hiff := steps_iff (P := fun u => AllMapped u ∧ Consistent u) (K := Independent)
    (Q := Harmless) ⟨hmapped, hconsistent⟩ (fun u e u' hu he => by
      rw [and_assoc, and_iff_right (hu.1.step he)]
      exact consistent_step hu.2 hu.1 he) hrun
  rw [← hiff]
  refine and_congr_left' ⟨fun h u hu => ⟨hall u hu, h u hu⟩, fun h u hu => (h u hu).2⟩

/-- The term of a field gets another type. -/
theorem fieldCodecs_consistent_iff_updated :
    let edits := [.addTerm { termId := ascii "a", termType := .int32 }]
    let changed := edits ++ [.updateTerm { termId := ascii "a", termType := .string }]
    let config : Config := { fields := [(ascii "x", ascii "a")] }
    let start := configured (Vocabulary.make edits)
    let steps := [.updateVocabulary 0 changed]
    ((setConfig .json (Vocabulary.make edits) config).toOption.bind fun p =>
        (run step (start p) steps).map fun w => w.objects.map fun f => f.term.termType) =
      some [.string] ∧
      ∃ p, setConfig .json (Vocabulary.make edits) config = .ok p ∧
        (((∀ u, ReachedIn step (start p) steps u → Consistent u) ∧
            ∀ e u u', HappensIn step (start p) steps e u → step u e = some u' →
              Independent e u u') ↔
          ∀ e u, HappensIn step (start p) steps e u → Harmless e u) := by
  intro edits changed config start steps
  have hrun : ((setConfig .json (Vocabulary.make edits) config).toOption.bind fun p =>
      (run step (start p) steps).map fun w => w.objects.map fun f => f.term.termType) =
      some [.string] := by
    decide +kernel
  obtain ⟨p, hp, hmap⟩ := Option.bind_eq_some_iff.1 hrun
  obtain ⟨w, hw, -⟩ := Option.map_eq_some_iff.1 hmap
  have hok : setConfig .json (Vocabulary.make edits) config = .ok p := by
    cases hset : setConfig .json (Vocabulary.make edits) config with
    | error x => rw [hset] at hp; cases hp
    | ok q => rw [hset] at hp; exact congrArg Except.ok (Option.some.inj hp)
  exact ⟨hrun, p, hok, fieldCodecs_consistent_iff hok hw⟩

/-- The references of a clone lead to the field of the original, which has its old term when the
clone is updated. -/
theorem fieldCodecs_consistent_iff_cloned :
    let edits := [.addTerm { termId := ascii "a", termType := .int32 }]
    let changed := edits ++ [.updateTerm { termId := ascii "a", termType := .string }]
    let config : Config := { fields := [(ascii "x", ascii "a")] }
    let old : Term := { termId := ascii "a", termRef := 1, termType := .int32 }
    let new : Term := { termId := ascii "a", termRef := 2, termType := .string }
    let codec : FieldCodec :=
      { kind := .json, fieldMap := [(ascii "x", 0)], format := [0], fieldPtrMap := [(1, 0)] }
    let cloned : FieldCodec :=
      { kind := .json, fieldMap := [(ascii "x", 1)], format := [1], fieldPtrMap := [(1, 0)] }
    let w : World := ⟨[⟨ascii "x", old, []⟩, ⟨ascii "x", new, []⟩],
      [(codec, Vocabulary.make edits), (cloned, Vocabulary.make changed)]⟩
    ((setConfig .json (Vocabulary.make edits) config).toOption.bind fun p =>
        run step (configured (Vocabulary.make edits) p) [.clone 0, .updateVocabulary 1 changed]) =
      some w ∧ ¬ Consistent w := by
  intro edits changed config old new codec cloned w
  refine ⟨by decide +kernel, fun h => ?_⟩
  have href := (h.references (cloned, Vocabulary.make changed) (by simp [w]) 1).2 (by decide)
  exact absurd href (by decide)

end FieldCodec

end PionCore.Platform
