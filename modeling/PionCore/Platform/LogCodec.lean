/-
# The fields of a log codec

A codec maps the names of the fields of a log line to terms of the vocabulary, and keeps the
order of the fields in the current line format.  A `#Fields` directive in an input stream
replaces the format, a vocabulary update renews the terms of the fields, and a clone gets fields
of its own.  The last two walk through the format only: while it leaves out a field, that field
keeps its old term, and a clone loses it (`logCodec_current_iff`).
-/
import PionCore.Lib.Runs
import PionCore.Platform.Vocabulary

namespace PionCore.Platform

open PionCore.Lib

def DataType.isDateTime : DataType → Bool
  | .dateTime | .date | .time => true
  | _ => false

/-- `LogField`; the facet is given by its format, a time offset in minutes. -/
structure LogField where
  logField : Bytes
  logTerm : Term
  logTimeFacet : Bytes := []
  logDelimStart : Byte := 0
  logDelimEnd : Byte := 0
  logOptDelims : Bool := false
  logUrlencode : Bool := false
  logEscapeChar : Byte := 92
  logEmptyVal : Bytes := ascii "-"
  logDoTimeOffset : Bool := false
  logTimeOffset : ℤ := 0
deriving DecidableEq

/-- The exceptions of a codec. -/
inductive LogCodecError where
  | emptyField
  | emptyTerm
  | unknownTerm (termId : Bytes)
  | duplicateFieldTerm
  | duplicateFieldName
  | badFormat (field : Bytes)
  | vocabulary (exception : VocabularyError)
deriving DecidableEq

/-- `LogCodec`.  A pointer to a field, of which the format is made, is the position of the map's
entry that keeps the field. -/
structure LogCodec where
  fieldMap : List (Bytes × LogField) := []
  format : List ℕ := []
  handleElfHeaders : Bool := false
  wroteElfHeaders : Bool := false
  timeOffset : ℤ := 0
  eventSplit : Bytes := ascii "\r\n"
  eventJoin : Bytes := ascii "\n"
  commentChars : Bytes := ascii "#"
  fieldSplit : Bytes := ascii " \t"
  fieldJoin : Bytes := ascii " "
  consumeDelims : Bool := true
deriving DecidableEq

/-- The facet of a new or renewed field, whose facet was `facet`. -/
def Term.timeFacet (t : Term) (facet : Bytes) : Bytes :=
  if t.termType.isDateTime then t.termFormat else facet

namespace LogCodec

/-- `m_field_map.find`. -/
def findField (c : LogCodec) (field : Bytes) : Option (Bytes × LogField) :=
  c.fieldMap.find? fun e => e.1 == field

/-- The fields of the format. -/
def fields (c : LogCodec) : List LogField :=
  c.format.filterMap fun i => c.fieldMap[i]?.map Prod.snd

/-- `mapFieldToTerm`; the arguments of the call are those of the new `LogField`. -/
def mapFieldToTerm (c : LogCodec) (f : LogField) : Except LogCodecError LogCodec :=
  if c.fieldMap.any fun e => e.2.logTerm.termRef == f.logTerm.termRef then
    .error .duplicateFieldTerm
  else if (c.findField f.logField).isSome then .error .duplicateFieldName
  else
    .ok { c with
      fieldMap := c.fieldMap ++
        [(f.logField, { f with logTimeFacet := f.logTerm.timeFacet [] })]
      format := c.format ++ [c.fieldMap.length] }

/-! ### Configuration -/

/-- A field of the configuration: its name, and its attributes after `cstyle`. -/
structure FieldConfig where
  field : Bytes
  term : Bytes
  start : Option Bytes := none
  stop : Option Bytes := none
  opt : Option Bytes := none
  urlencode : Option Bytes := none
  escape : Option Bytes := none
  empty : Option Bytes := none
deriving DecidableEq

/-- The configuration; the sets and strings are those after `cstyle`. -/
structure LogConfig where
  headers : Bool := false
  timeOffset : ℤ := 0
  fields : List FieldConfig := []
  eventSplit : Option Bytes := none
  eventJoin : Option Bytes := none
  eventComment : Option Bytes := none
  fieldSplit : Option Bytes := none
  fieldJoin : Option Bytes := none
  consume : Option Bytes := none
deriving DecidableEq

/-- The first character of a C string. -/
def firstChar (s : Bytes) : Byte := s.headD 0

/-- A C string ends in front of its first zero byte. -/
def cString (s : Bytes) : Bytes := s.takeWhile (· != 0)

/-- A set or string of the configuration, unless it is missing or empty. -/
def setting (value : Option Bytes) (byDefault : Bytes) : Bytes :=
  match value with
  | some s => if firstChar s = 0 then byDefault else cString s
  | none => byDefault

/-- A delimiter of the configuration, or zero. -/
def delimOf (value : Option Bytes) : Byte := (value.map firstChar).getD 0

/-- If there is only one delimiter, it is used for both sides. -/
def FieldConfig.delimStart (cfg : FieldConfig) : Byte :=
  if delimOf cfg.start = 0 then delimOf cfg.stop else delimOf cfg.start

def FieldConfig.delimEnd (cfg : FieldConfig) : Byte :=
  if delimOf cfg.stop = 0 then delimOf cfg.start else delimOf cfg.stop

/-- The empty value is `-` by default if there is no delimiter. -/
def FieldConfig.emptyVal (cfg : FieldConfig) : Bytes :=
  (cfg.empty.map cString).getD (if cfg.delimStart = 0 then ascii "-" else [])

/-- The field that `setConfig` maps. -/
def fieldOf (v : Vocabulary) (timeOffset : ℤ) (cfg : FieldConfig) :
    Except LogCodecError LogField :=
  if firstChar cfg.field = 0 then .error .emptyField
  else if firstChar cfg.term = 0 then .error .emptyTerm
  else if v.findTerm cfg.term = 0 then .error (.unknownTerm cfg.term)
  else .ok
    { logField := cfg.field
      logTerm := v.get (v.findTerm cfg.term)
      logDelimStart := cfg.delimStart
      logDelimEnd := cfg.delimEnd
      logOptDelims := cfg.opt == some (ascii "true")
      logUrlencode := cfg.urlencode == some (ascii "true")
      logEscapeChar := (cfg.escape.map firstChar).getD 92
      logEmptyVal := cfg.emptyVal
      logDoTimeOffset := timeOffset != 0
      logTimeOffset := timeOffset }

/-- The loop of `setConfig` over the fields. -/
def mapFields (v : Vocabulary) (timeOffset : ℤ) (c : LogCodec) :
    List FieldConfig → Except LogCodecError LogCodec
  | [] => .ok c
  | cfg :: cfgs => do
    let f ← fieldOf v timeOffset cfg
    let c ← c.mapFieldToTerm f
    mapFields v timeOffset c cfgs

/-- `setConfig` of a new codec.  The field specifications are not used with ELF headers. -/
def setConfig (v : Vocabulary) (config : LogConfig) : Except LogCodecError LogCodec := do
  let mapped ← mapFields v config.timeOffset {} config.fields
  let codec := { mapped with
    handleElfHeaders := config.headers
    timeOffset := config.timeOffset
    eventSplit := setting config.eventSplit (ascii "\r\n")
    eventJoin := setting config.eventJoin (ascii "\n")
    commentChars := setting config.eventComment (ascii "#") }
  if config.headers then .ok codec
  else .ok { codec with
    fieldSplit := setting config.fieldSplit (ascii " \t")
    fieldJoin := setting config.fieldJoin (ascii " ")
    consumeDelims := config.consume != some (ascii "false") }

/-! ### Changes of the format and of the terms -/

/-- The names that the loop of `changeELFFormat` cuts out of the rest of a directive. -/
def elfNames (eventSplit : Bytes) : ℕ → Bytes → List Bytes
  | 0, _ => []
  | n + 1, fmt =>
    let ends (c : Byte) : Bool := c == 0 || eventSplit.contains c
    if fmt.head?.all ends then []
    else
      let name := (fmt.dropWhile (· == 32)).takeWhile fun c => ! ends c && c != 32
      match (fmt.dropWhile (· == 32)).dropWhile fun c => ! ends c && c != 32 with
      | [] => [name]
      | c :: rest => if ends c then [name] else name :: elfNames eventSplit n rest

/-- The fields of a format, up to the first name that is not mapped. -/
def lookupFields (c : LogCodec) : List Bytes → List ℕ × Option LogCodecError
  | [] => ([], none)
  | name :: names =>
    match c.fieldMap.findIdx? fun e => e.1 == name with
    | none => ([], some (.badFormat name))
    | some i => (i :: (lookupFields c names).1, (lookupFields c names).2)

/-- `changeELFFormat`; a name that is not mapped throws, and leaves the fields before it. -/
def changeELFFormat (c : LogCodec) (fmt : Bytes) : LogCodec × Option LogCodecError :=
  let found := c.lookupFields (elfNames c.eventSplit (fmt.length + 1) fmt)
  ({ c with format := found.1 }, found.2)

/-- A field gets the new data of its term. -/
def withTerm (f : LogField) (t : Term) : LogField :=
  { f with logTerm := t, logTimeFacet := t.timeFacet f.logTimeFacet }

/-- The loop of `updateVocabulary` over the format. -/
def updateFields (v : Vocabulary) :
    List ℕ → List (Bytes × LogField) → List (Bytes × LogField) × Option LogCodecError
  | [], m => (m, none)
  | i :: is, m =>
    match m[i]? with
    | none => updateFields v is m
    | some e =>
      match v.refreshTerm e.2.logTerm with
      | .ok t => updateFields v is (m.set i (e.1, withTerm e.2 t))
      | .error exception => (m, some (.vocabulary exception))

/-- `updateVocabulary`: the codec behind the call, and the exception that it throws. -/
def updateVocabulary (c : LogCodec) (v : Vocabulary) : LogCodec × Option LogCodecError :=
  let updated := updateFields v c.format c.fieldMap
  ({ c with fieldMap := updated.1 }, updated.2)

/-- `clone`. -/
def clone (c : LogCodec) : Except LogCodecError LogCodec :=
  c.fields.foldlM mapFieldToTerm
    { c with fieldMap := [], format := [], wroteElfHeaders := false }

/-! ### Runs -/

/-- A codec and the vocabulary that it was given last. -/
structure State where
  codec : LogCodec
  vocabulary : Vocabulary
deriving DecidableEq

/-- What happens to a codec.  The vocabulary of an update is given by the calls that made it, and
behind `clone` it is the clone that is used. -/
inductive Step where
  | fields (fmt : Bytes)
  | updateVocabulary (edits : List Vocabulary.Edit)
  | clone
deriving DecidableEq

/-- A directive is only looked at with ELF headers; a codec that cannot be cloned stays. -/
def step (s : State) : Step → Option State
  | .fields fmt =>
    if s.codec.handleElfHeaders then some { s with codec := (s.codec.changeELFFormat fmt).1 }
    else none
  | .updateVocabulary edits =>
    some ⟨(s.codec.updateVocabulary (Vocabulary.make edits)).1, Vocabulary.make edits⟩
  | .clone => some { s with codec := s.codec.clone.toOption.getD s.codec }

/-- A field carries the term that the vocabulary has for its identifier. -/
def CarriesTerm (v : Vocabulary) (e : Bytes × LogField) : Prop :=
  v.findTerm e.2.logTerm.termId ≠ 0 ∧ e.2.logTerm = v.get (v.findTerm e.2.logTerm.termId)

/-- Every field that is reached through the map carries the current term. -/
def Current (s : State) : Prop := ∀ e ∈ s.codec.fieldMap, CarriesTerm s.vocabulary e

/-- Fields that are equal, up to a facet that is not used. -/
def SameField (f g : LogField) : Prop :=
  { f with logTimeFacet := [] } = { g with logTimeFacet := [] } ∧
    (f.logTerm.termType.isDateTime → f.logTimeFacet = g.logTimeFacet)

/-- Codecs whose maps and formats are equal; the fields are different objects. -/
structure SameFields (c d : LogCodec) : Prop where
  fieldMap : ∀ name,
    Option.Rel (fun e e' => SameField e.2 e'.2) (c.findField name) (d.findField name)
  format : List.Forall₂ SameField c.fields d.fields

/-- The codec can be cloned, with an equal map and format. -/
def CloneEqual (c : LogCodec) : Prop := ∃ d, c.clone = .ok d ∧ SameFields d c

/-- The names of the mapped fields. -/
def names (c : LogCodec) : List Bytes := c.fieldMap.map Prod.fst

def isMapped (c : LogCodec) (name : Bytes) : Bool := (c.findField name).isSome

/-- A directive names each mapped field once, in front of any other name, and a vocabulary
defines the terms of all mapped fields. -/
def NamesAll : Step → State → Prop
  | .fields fmt, s =>
    ((elfNames s.codec.eventSplit (fmt.length + 1) fmt).takeWhile s.codec.isMapped).Perm
      s.codec.names
  | .updateVocabulary edits, s =>
    ∀ e ∈ s.codec.fieldMap, (Vocabulary.make edits).findTerm e.2.logTerm.termId ≠ 0
  | .clone, _ => True

/-- What holds of every codec: the keys are the names of the fields, no name and no term is
mapped twice, and the format points to mapped fields. -/
structure Wired (c : LogCodec) : Prop where
  key : ∀ e ∈ c.fieldMap, e.1 = e.2.logField
  names : c.names.Nodup
  terms : (c.fieldMap.map fun e => e.2.logTerm.termId).Nodup
  facet : ∀ e ∈ c.fieldMap, e.2.logTerm.termType.isDateTime →
    e.2.logTimeFacet = e.2.logTerm.termFormat

variable {c d : LogCodec} {v : Vocabulary} {f : LogField} {e : Bytes × LogField}

lemma findField_eq_some (hc : Wired c) {name : Bytes} :
    c.findField name = some e ↔ e ∈ c.fieldMap ∧ e.1 = name := by
  constructor
  · intro h
    have hkey := List.find?_some h
    exact ⟨List.mem_of_find?_eq_some h, by simpa using hkey⟩
  · rintro ⟨hmem, rfl⟩
    cases hfind : c.findField e.1 with
    | none => exact absurd hmem fun hmem => by simpa using List.find?_eq_none.1 hfind e hmem
    | some e' =>
      have hkey : e'.1 = e.1 := by simpa using List.find?_some hfind
      have hmem' := List.mem_of_find?_eq_some hfind
      rw [List.inj_on_of_nodup_map hc.names hmem' hmem hkey]

lemma isMapped_iff {name : Bytes} : c.isMapped name = true ↔ name ∈ c.names := by
  simp [isMapped, findField, names]

lemma Wired.mem_of_mem_fields (hc : Wired c) (h : f ∈ c.fields) :
    (f.logField, f) ∈ c.fieldMap := by
  obtain ⟨i, -, hi⟩ := List.mem_filterMap.1 h
  obtain ⟨e, he, rfl⟩ := Option.map_eq_some_iff.1 hi
  have hmem : e ∈ c.fieldMap := List.mem_of_getElem? he
  rw [← hc.key e hmem]
  exact hmem

/-! ### Mapping a list of fields -/

/-- The field as `mapFieldToTerm` makes it. -/
def created (f : LogField) : LogField := { f with logTimeFacet := f.logTerm.timeFacet [] }

/-- The codec with further fields at the end of its map and format. -/
def extend (c : LogCodec) (fs : List LogField) : LogCodec :=
  { c with
    fieldMap := c.fieldMap ++ fs.map fun f => (f.logField, created f)
    format := c.format ++ List.range' c.fieldMap.length fs.length }

/-- The references of the mapped terms. -/
def refs (c : LogCodec) : List ℕ := c.fieldMap.map fun e => e.2.logTerm.termRef

@[simp] lemma refs_extend (fs : List LogField) :
    (c.extend fs).refs = c.refs ++ fs.map fun f => f.logTerm.termRef := by
  simp [refs, extend, created]

@[simp] lemma names_extend (fs : List LogField) :
    (c.extend fs).names = c.names ++ fs.map LogField.logField := by
  simp [names, extend]

lemma extend_nil : c.extend [] = c := by
  simp [extend]

lemma extend_cons (fs : List LogField) : (c.extend [f]).extend fs = c.extend (f :: fs) := by
  simp [extend, List.range'_succ]

lemma mapFieldToTerm_ok : c.mapFieldToTerm f = .ok d ↔
    f.logTerm.termRef ∉ c.refs ∧ f.logField ∉ c.names ∧ d = c.extend [f] := by
  rw [mapFieldToTerm]
  have href : (c.fieldMap.any fun e => e.2.logTerm.termRef == f.logTerm.termRef) = true ↔
      f.logTerm.termRef ∈ c.refs := by
    simp [refs]
  have hname : (c.findField f.logField).isSome = true ↔ f.logField ∈ c.names := isMapped_iff
  rw [if_congr href rfl rfl, if_congr hname rfl rfl]
  split_ifs with h h'
  · simp [h]
  · simp [h']
  · simp only [h, h', not_false_eq_true, true_and, Except.ok.injEq]
    exact eq_comm

/-- All fields of a list can be mapped if no reference and no name comes twice. -/
lemma foldlM_mapFieldToTerm {fs : List LogField} (href : c.refs.Nodup) (hname : c.names.Nodup) :
    fs.foldlM mapFieldToTerm c = .ok d ↔
      (c.refs ++ fs.map fun f => f.logTerm.termRef).Nodup ∧
        (c.names ++ fs.map LogField.logField).Nodup ∧ d = c.extend fs := by
  induction fs generalizing c with
  | nil =>
    simp only [List.foldlM_nil, List.map_nil, List.append_nil, href, hname, true_and, extend_nil]
    exact ⟨fun h => (Except.ok.inj h).symm, fun h => h ▸ rfl⟩
  | cons f fs ih =>
    rw [List.foldlM_cons]
    by_cases hnew : f.logTerm.termRef ∉ c.refs ∧ f.logField ∉ c.names
    · have hok : c.mapFieldToTerm f = .ok (c.extend [f]) :=
        mapFieldToTerm_ok.2 ⟨hnew.1, hnew.2, rfl⟩
      have href' : (c.extend [f]).refs.Nodup := by
        rw [refs_extend]
        exact List.nodup_append_comm.1 (List.nodup_cons.2 ⟨hnew.1, href⟩)
      have hname' : (c.extend [f]).names.Nodup := by
        rw [names_extend]
        exact List.nodup_append_comm.1 (List.nodup_cons.2 ⟨hnew.2, hname⟩)
      rw [hok]
      refine (ih href' hname').trans ?_
      rw [refs_extend, names_extend, extend_cons, List.append_assoc, List.append_assoc]
      rfl
    · -- the field is refused, and its reference or its name comes twice
      have herror : ∃ x, c.mapFieldToTerm f = .error x := by
        cases hres : c.mapFieldToTerm f with
        | error x => exact ⟨x, rfl⟩
        | ok d' => exact absurd ⟨(mapFieldToTerm_ok.1 hres).1, (mapFieldToTerm_ok.1 hres).2.1⟩ hnew
      obtain ⟨x, hx⟩ := herror
      rw [hx]
      refine iff_of_false (fun h => by cases h) ?_
      rintro ⟨hrefs, hnames, -⟩
      refine hnew ⟨fun hmem => ?_, fun hmem => ?_⟩
      · exact List.disjoint_of_nodup_append hrefs hmem List.mem_cons_self
      · exact List.disjoint_of_nodup_append hnames hmem List.mem_cons_self

/-- The codec that a clone starts with. -/
def blank (c : LogCodec) : LogCodec :=
  { c with fieldMap := [], format := [], wroteElfHeaders := false }

lemma clone_ok : c.clone = .ok d ↔
    (c.fields.map fun f => f.logTerm.termRef).Nodup ∧ (c.fields.map LogField.logField).Nodup ∧
      d = c.blank.extend c.fields :=
  foldlM_mapFieldToTerm (c := c.blank) List.nodup_nil List.nodup_nil

lemma filterMap_range_getElem? {α β : Type*} (l : List α) (g : α → β) :
    (List.range l.length).filterMap (fun i => l[i]?.map g) = l.map g := by
  induction l using List.reverseRecOn with
  | nil => rfl
  | append_singleton l a ih =>
    rw [List.length_append, List.length_singleton, List.range_succ, List.filterMap_append,
      List.map_append, ← ih]
    congr 1
    · refine List.filterMap_congr fun i hi => ?_
      rw [List.getElem?_append_left (List.mem_range.1 hi)]
    · simp

lemma fields_extend_blank (fs : List LogField) : (c.blank.extend fs).fields = fs.map created := by
  have h := filterMap_range_getElem? (fs.map fun f => (f.logField, created f)) Prod.snd
  rw [List.length_map, List.map_map, List.range_eq_range'] at h
  exact h

lemma sameField_created (hc : Wired c) (h : f ∈ c.fields) : SameField (created f) f := by
  refine ⟨rfl, fun hdate => ?_⟩
  have hfacet := hc.facet _ (hc.mem_of_mem_fields h) hdate
  rw [hfacet]
  exact if_pos hdate

/-- What differs on mapped fields differs on the fields of a format without repetitions. -/
lemma Wired.nodup_fields (hc : Wired c) (h : (c.fields.map LogField.logField).Nodup) {α : Type*}
    {g : LogField → α} (hg : (c.fieldMap.map fun e => g e.2).Nodup) : (c.fields.map g).Nodup := by
  refine List.Nodup.map_on (fun f hf f' hf' heq => ?_) (List.Nodup.of_map _ h)
  exact congrArg Prod.snd (List.inj_on_of_nodup_map hg (hc.mem_of_mem_fields hf)
    (hc.mem_of_mem_fields hf') heq)

lemma Wired.clone (hc : Wired c) (hd : c.clone = .ok d) : Wired d := by
  obtain ⟨-, hnodup, rfl⟩ := clone_ok.1 hd
  have hmap : (c.blank.extend c.fields).fieldMap = c.fields.map fun f => (f.logField, created f) :=
    rfl
  constructor
  · intro e he
    rw [hmap] at he
    obtain ⟨f, -, rfl⟩ := List.mem_map.1 he
    rfl
  · rw [names_extend]
    exact hnodup
  · rw [hmap, List.map_map]
    exact hc.nodup_fields hnodup hc.terms
  · intro e he hdate
    rw [hmap] at he
    obtain ⟨f, -, rfl⟩ := List.mem_map.1 he
    exact if_pos hdate

/-- A codec is cloned to an equal one just when its format has every mapped field once. -/
lemma cloneEqual_iff (hc : Wired c) (hrefs : c.refs.Nodup) :
    CloneEqual c ↔ (c.fields.map LogField.logField).Perm c.names := by
  have hmem : ∀ {name}, name ∈ c.fields.map LogField.logField → ∃ f ∈ c.fields,
      f.logField = name ∧ c.findField name = some (name, f) := by
    intro name hname
    obtain ⟨f, hf, rfl⟩ := List.mem_map.1 hname
    exact ⟨f, hf, rfl, (findField_eq_some hc).2 ⟨hc.mem_of_mem_fields hf, rfl⟩⟩
  constructor
  · rintro ⟨d, hd, hsame⟩
    obtain ⟨-, hnodup, rfl⟩ := clone_ok.1 hd
    refine (List.perm_ext_iff_of_nodup hnodup hc.names).2 fun name => ?_
    -- the clone has the names of the format
    have hmapped : name ∈ c.fields.map LogField.logField ↔
        ((c.blank.extend c.fields).findField name).isSome = true := by
      refine Iff.trans ?_ isMapped_iff.symm
      rw [names_extend]
      rfl
    rw [hmapped, ← isMapped_iff, isMapped]
    have hrel := hsame.fieldMap name
    revert hrel
    generalize (c.blank.extend c.fields).findField name = x
    generalize c.findField name = y
    intro hrel
    cases hrel <;> rfl
  · intro hperm
    have hnodup : (c.fields.map LogField.logField).Nodup := hperm.nodup_iff.2 hc.names
    have hrefs' := hc.nodup_fields (g := fun f => f.logTerm.termRef) hnodup hrefs
    have hclone := clone_ok.2 ⟨hrefs', hnodup, rfl⟩
    refine ⟨_, hclone, fun name => ?_, ?_⟩
    · cases hfind : c.findField name with
      | none =>
        have hnot : (c.blank.extend c.fields).findField name = none := by
          rw [← Option.not_isSome_iff_eq_none]
          intro hsome
          have hname : name ∈ c.fields.map LogField.logField := by
            have := isMapped_iff.1 hsome
            rwa [names_extend] at this
          obtain ⟨f, -, -, hf⟩ := hmem hname
          rw [hfind] at hf
          cases hf
        rw [hnot]
        exact Option.Rel.none
      | some e =>
        obtain ⟨he, rfl⟩ := (findField_eq_some hc).1 hfind
        have hname : e.1 ∈ c.fields.map LogField.logField :=
          hperm.mem_iff.2 (List.mem_map_of_mem he)
        obtain ⟨f, hf, hfname, hf'⟩ := hmem hname
        -- the field that the format points to is the one that is mapped
        have hef : e = (e.1, f) := Option.some.inj (hfind.symm.trans hf')
        have hfound : (c.blank.extend c.fields).findField e.1 = some (e.1, created f) := by
          refine (findField_eq_some (hc.clone hclone)).2 ⟨?_, rfl⟩
          rw [← hfname]
          exact List.mem_map_of_mem hf
        rw [hfound]
        refine Option.Rel.some ?_
        rw [hef]
        exact sameField_created hc hf
    · rw [fields_extend_blank, List.forall₂_map_left_iff]
      exact List.forall₂_same.2 fun f hf => sameField_created hc hf

/-! ### Directives -/

/-- The fields that are found are the names up to the first one that is not mapped. -/
lemma names_lookupFields (hc : Wired c) (ns : List Bytes) :
    ({ c with format := (c.lookupFields ns).1 } : LogCodec).fields.map LogField.logField =
      ns.takeWhile c.isMapped := by
  induction ns with
  | nil => rfl
  | cons name ns ih =>
    rw [lookupFields]
    cases hfind : c.fieldMap.findIdx? fun e => e.1 == name with
    | none =>
      have hnot : c.isMapped name = false := by
        simpa [isMapped, findField] using hfind
      rw [List.takeWhile_cons, hnot]
      rfl
    | some i =>
      obtain ⟨hi, hname, -⟩ := List.findIdx?_eq_some_iff_getElem.1 hfind
      have hkey : c.fieldMap[i].1 = name := by simpa using hname
      have hmem : c.fieldMap[i] ∈ c.fieldMap := List.getElem_mem hi
      have hmapped : c.isMapped name = true :=
        isMapped_iff.2 (hkey ▸ List.mem_map_of_mem hmem)
      rw [List.takeWhile_cons, hmapped, if_pos rfl, ← ih, fields]
      dsimp only
      rw [List.filterMap_cons, List.getElem?_eq_getElem hi]
      show c.fieldMap[i].2.logField :: _ = name :: _
      rw [← hc.key _ hmem, hkey]
      rfl

lemma names_changeELFFormat (hc : Wired c) (fmt : Bytes) :
    (c.changeELFFormat fmt).1.fields.map LogField.logField =
      (elfNames c.eventSplit (fmt.length + 1) fmt).takeWhile c.isMapped :=
  names_lookupFields hc _

lemma Wired.withFormat (hc : Wired c) (format : List ℕ) : Wired { c with format } :=
  ⟨hc.key, hc.names, hc.terms, hc.facet⟩

/-! ### Updates -/

/-- What an update may do to a mapped field. -/
def Renewed (v : Vocabulary) (e e' : Bytes × LogField) : Prop :=
  e' = e ∨ ∃ t, v.refreshTerm e.2.logTerm = .ok t ∧ e' = (e.1, withTerm e.2 t)

variable {e' e'' : Bytes × LogField}

lemma Renewed.key (h : Renewed v e e') : e'.1 = e.1 := by
  obtain rfl | ⟨t, -, rfl⟩ := h <;> rfl

lemma Renewed.termId (hv : v.Sound) (h : Renewed v e e') :
    e'.2.logTerm.termId = e.2.logTerm.termId := by
  obtain rfl | ⟨t, ht, rfl⟩ := h
  · rfl
  · exact (hv.termId_of_refreshTerm ht).2.2

lemma carriesTerm_withTerm (hv : v.Sound) {t : Term} (ht : v.refreshTerm e.2.logTerm = .ok t) :
    CarriesTerm v (e.1, withTerm e.2 t) := by
  obtain ⟨hne, rfl, hid⟩ := hv.termId_of_refreshTerm ht
  refine ⟨?_, ?_⟩
  · show v.findTerm (v.get _).termId ≠ 0
    rwa [hid]
  · show v.get _ = v.get (v.findTerm (v.get _).termId)
    rw [hid]

lemma Renewed.carriesTerm (hv : v.Sound) (h : Renewed v e e') (he : CarriesTerm v e) :
    CarriesTerm v e' := by
  obtain rfl | ⟨t, ht, rfl⟩ := h
  · exact he
  · exact carriesTerm_withTerm hv ht

lemma Renewed.trans (hv : v.Sound) (h : Renewed v e e') (h' : Renewed v e' e'') :
    Renewed v e e'' := by
  obtain rfl | ⟨t, ht, rfl⟩ := h'
  · exact h
  · obtain rfl | ⟨u, hu, rfl⟩ := h
    · exact Or.inr ⟨t, ht, rfl⟩
    · -- the second time a field is renewed, it gets the same term
      have hid := (hv.termId_of_refreshTerm hu).2.2
      have htu : v.refreshTerm u = v.refreshTerm e.2.logTerm := by
        rw [Vocabulary.refreshTerm, Vocabulary.refreshTerm, hid]
      obtain rfl : t = u := Except.ok.inj ((ht.symm.trans htu).trans hu)
      refine Or.inr ⟨t, hu, ?_⟩
      simp only [withTerm, Term.timeFacet]
      split_ifs <;> rfl

lemma forall₂_map_eq {α β : Type*} {R : α → α → Prop} {l l' : List α} {g : α → β}
    (h : List.Forall₂ R l l') (hg : ∀ a a', R a a' → g a' = g a) : l'.map g = l.map g := by
  induction h with
  | nil => rfl
  | cons hR _ ih => rw [List.map_cons, List.map_cons, hg _ _ hR, ih]

lemma renewed_refl (m : List (Bytes × LogField)) : List.Forall₂ (Renewed v) m m :=
  List.forall₂_same.2 fun _ _ => Or.inl rfl

lemma renewed_set {m : List (Bytes × LogField)} {i : ℕ} (hi : m[i]? = some e)
    (h : Renewed v e e') : List.Forall₂ (Renewed v) m (m.set i e') := by
  refine List.forall₂_iff_get.2 ⟨by simp, fun j hj hj' => ?_⟩
  rw [List.get_eq_getElem, List.get_eq_getElem, List.getElem_set]
  split_ifs with hij
  · subst hij
    obtain ⟨_, rfl⟩ := List.getElem?_eq_some_iff.1 hi
    exact h
  · exact Or.inl rfl

/-- Every mapped field is renewed, or stays as it is. -/
lemma updateFields_renewed (hv : v.Sound) (is : List ℕ) (m : List (Bytes × LogField)) :
    List.Forall₂ (Renewed v) m (updateFields v is m).1 := by
  induction is generalizing m with
  | nil => exact renewed_refl m
  | cons i is ih =>
    rw [updateFields]
    cases hi : m[i]? with
    | none => exact ih m
    | some e =>
      dsimp only
      cases ht : v.refreshTerm e.2.logTerm with
      | error x => exact renewed_refl m
      | ok t =>
        have hset := renewed_set hi (Or.inr ⟨t, ht, rfl⟩ : Renewed v e _)
        refine List.forall₂_iff_get.2 ?_
        obtain ⟨hlen, hget⟩ := List.forall₂_iff_get.1 hset
        obtain ⟨hlen', hget'⟩ := List.forall₂_iff_get.1 (ih (m.set i (e.1, withTerm e.2 t)))
        exact ⟨hlen.trans hlen', fun j hj hj' =>
          (hget j hj (hlen ▸ hj)).trans hv (hget' j (hlen ▸ hj) hj')⟩

lemma forall₂_getElem? {α : Type*} {R : α → α → Prop} {l l' : List α} {i : ℕ} {a : α}
    (h : List.Forall₂ R l l') (ha : l[i]? = some a) : ∃ a', l'[i]? = some a' ∧ R a a' := by
  obtain ⟨hlen, hget⟩ := List.forall₂_iff_get.1 h
  obtain ⟨hi, rfl⟩ := List.getElem?_eq_some_iff.1 ha
  exact ⟨_, List.getElem?_eq_getElem (hlen ▸ hi), hget i hi (hlen ▸ hi)⟩

/-- If the vocabulary defines all terms, the fields of the format are renewed. -/
lemma updateFields_carriesTerm (hv : v.Sound) (is : List ℕ) {m : List (Bytes × LogField)}
    (hm : ∀ e ∈ m, v.findTerm e.2.logTerm.termId ≠ 0) {i : ℕ} (hi : i ∈ is)
    (he : (updateFields v is m).1[i]? = some e) : CarriesTerm v e := by
  induction is generalizing m with
  | nil => cases hi
  | cons j is ih =>
    rw [updateFields] at he
    cases hj : m[j]? with
    | none =>
      rw [hj] at he
      rcases List.mem_cons.1 hi with rfl | hi
      · -- a position behind the map
        have hlen := (updateFields_renewed hv is m).length_eq
        rw [List.getElem?_eq_none_iff, hlen, ← List.getElem?_eq_none_iff] at hj
        exact absurd (hj.symm.trans he) (by simp)
      · exact ih hm hi he
    | some g =>
      have hg : v.findTerm g.2.logTerm.termId ≠ 0 := hm g (List.mem_of_getElem? hj)
      have ht : v.refreshTerm g.2.logTerm = .ok (v.get (v.findTerm g.2.logTerm.termId)) :=
        if_neg hg
      simp only [hj, ht] at he
      set g' := (g.1, withTerm g.2 (v.get (v.findTerm g.2.logTerm.termId))) with hg'
      have hset : (m.set j g')[j]? = some g' :=
        List.getElem?_set_self (List.getElem?_eq_some_iff.1 hj).1
      by_cases hmem : i ∈ is
      · refine ih (m := m.set j g') (fun e he => ?_) hmem he
        rcases List.mem_or_eq_of_mem_set he with he | rfl
        · exact hm e he
        · exact (carriesTerm_withTerm hv ht).1
      · obtain rfl := (List.mem_cons.1 hi).resolve_right hmem
        obtain ⟨e', he', hR⟩ := forall₂_getElem? (updateFields_renewed hv is (m.set i g')) hset
        obtain rfl := Option.some.inj (he'.symm.trans he)
        exact hR.carriesTerm hv (carriesTerm_withTerm hv ht)

lemma Wired.updateVocabulary (hc : Wired c) (hv : v.Sound) : Wired (c.updateVocabulary v).1 := by
  have hren := updateFields_renewed hv c.format c.fieldMap
  have hback : ∀ e' ∈ (c.updateVocabulary v).1.fieldMap, ∃ e ∈ c.fieldMap, Renewed v e e' :=
    fun e' he' => by
      obtain ⟨j, hj, rfl⟩ := List.getElem_of_mem he'
      obtain ⟨hlen, hget⟩ := List.forall₂_iff_get.1 hren
      exact ⟨_, List.getElem_mem (hlen.symm ▸ hj), hget j (hlen.symm ▸ hj) hj⟩
  constructor
  · intro e' he'
    obtain ⟨e, he, hR⟩ := hback e' he'
    rw [hR.key, hc.key e he]
    obtain rfl | ⟨t, -, rfl⟩ := hR <;> rfl
  · show (List.map Prod.fst _).Nodup
    rw [LogCodec.updateVocabulary, forall₂_map_eq hren fun _ _ h => h.key]
    exact hc.names
  · rw [LogCodec.updateVocabulary, forall₂_map_eq hren fun _ _ h => h.termId hv]
    exact hc.terms
  · intro e' he' hdate
    obtain ⟨e, he, hR⟩ := hback e' he'
    obtain rfl | ⟨t, -, rfl⟩ := hR
    · exact hc.facet e' he hdate
    · exact if_pos hdate

/-! ### Steps -/

lemma names_fields : c.fields.map LogField.logField =
    c.format.filterMap fun i => (c.fieldMap.map fun e => e.2.logField)[i]? := by
  rw [fields, List.map_filterMap]
  refine List.filterMap_congr fun i _ => ?_
  rw [List.getElem?_map, Option.map_map]
  rfl

lemma names_updateVocabulary (hv : v.Sound) :
    (c.updateVocabulary v).1.fields.map LogField.logField = c.fields.map LogField.logField ∧
      (c.updateVocabulary v).1.names = c.names := by
  have hren := updateFields_renewed hv c.format c.fieldMap
  refine ⟨?_, forall₂_map_eq hren fun _ _ h => h.key⟩
  rw [names_fields, names_fields]
  have hname : ((c.updateVocabulary v).1.fieldMap.map fun e => e.2.logField) =
      c.fieldMap.map fun e => e.2.logField := by
    refine forall₂_map_eq hren fun e e' h => ?_
    obtain rfl | ⟨t, -, rfl⟩ := h <;> rfl
  rw [hname]
  rfl

/-- A field that carries its term has another reference than every other one. -/
lemma Wired.nodup_refs (hc : Wired c) (hv : v.Sound) (h : ∀ e ∈ c.fieldMap, CarriesTerm v e) :
    c.refs.Nodup := by
  refine List.Nodup.map_on (fun e he e' he' heq => ?_) (List.Nodup.of_map _ hc.terms)
  have href : ∀ g ∈ c.fieldMap, g.2.logTerm.termRef = v.findTerm g.2.logTerm.termId ∧
      (v.get g.2.logTerm.termRef).termId = g.2.logTerm.termId := by
    intro g hg
    obtain ⟨hne, hterm⟩ := h g hg
    obtain ⟨hid, hpos⟩ := hv.get_findTerm hne
    have hposg : g.2.logTerm.termRef = v.findTerm g.2.logTerm.termId :=
      (congrArg Term.termRef hterm).trans hpos
    exact ⟨hposg, by rw [hposg, hid]⟩
  refine List.inj_on_of_nodup_map hc.terms he he' ?_
  rw [← (href e he).2, ← (href e' he').2, heq]

/-- Every mapped field has its place in a format that names all of them. -/
lemma Wired.mem_format (hc : Wired c) (h : (c.fields.map LogField.logField).Perm c.names) {i : ℕ}
    (he : c.fieldMap[i]? = some e) : i ∈ c.format := by
  have hname : e.1 ∈ c.fields.map LogField.logField :=
    h.mem_iff.2 (List.mem_map_of_mem (List.mem_of_getElem? he))
  rw [names_fields, List.mem_filterMap] at hname
  obtain ⟨j, hj, hget⟩ := hname
  rw [List.getElem?_map, Option.map_eq_some_iff] at hget
  obtain ⟨e', he', hkey⟩ := hget
  rw [← hc.key e' (List.mem_of_getElem? he')] at hkey
  obtain ⟨hi, rfl⟩ := List.getElem?_eq_some_iff.1 he
  obtain ⟨hj', rfl⟩ := List.getElem?_eq_some_iff.1 he'
  have hinj : (c.fieldMap.map Prod.fst).get ⟨j, by rwa [List.length_map]⟩ =
      (c.fieldMap.map Prod.fst).get ⟨i, by rwa [List.length_map]⟩ := by
    simpa using hkey
  have hij : j = i := congrArg Fin.val (List.nodup_iff_injective_get.1 hc.names hinj)
  exact hij ▸ hj

/-- What holds in every state. -/
structure Valid (s : State) : Prop where
  wired : Wired s.codec
  vocabulary : s.vocabulary.Sound

lemma Valid.next {s s' : State} (h : Valid s) {e : Step} (hstep : step s e = some s') :
    Valid s' := by
  cases e with
  | fields fmt =>
    obtain ⟨-, ⟨⟩⟩ := Option.ite_none_right_eq_some.1 hstep
    exact ⟨h.wired.withFormat _, h.vocabulary⟩
  | updateVocabulary edits =>
    obtain rfl := Option.some.inj hstep
    exact ⟨h.wired.updateVocabulary (Vocabulary.sound_make edits), Vocabulary.sound_make edits⟩
  | clone =>
    obtain rfl := Option.some.inj hstep
    refine ⟨?_, h.vocabulary⟩
    dsimp only
    cases hd : s.codec.clone with
    | error x => exact h.wired
    | ok d => exact h.wired.clone hd

/-- While the terms are current, the codec can be cloned just when its format is complete. -/
lemma Valid.cloneEqual_iff {s : State} (h : Valid s) (hcur : Current s) :
    CloneEqual s.codec ↔ (s.codec.fields.map LogField.logField).Perm s.codec.names :=
  LogCodec.cloneEqual_iff h.wired (h.wired.nodup_refs h.vocabulary hcur)

lemma Valid.step_iff {s s' : State} (h : Valid s) (hcur : Current s) (hclone : CloneEqual s.codec)
    {e : Step} (hstep : step s e = some s') :
    (Current s' ∧ CloneEqual s'.codec) ↔ NamesAll e s := by
  have hperm := (h.cloneEqual_iff hcur).1 hclone
  have h' := h.next hstep
  cases e with
  | fields fmt =>
    obtain ⟨-, ⟨⟩⟩ := Option.ite_none_right_eq_some.1 hstep
    have hcur' : Current ⟨(s.codec.changeELFFormat fmt).1, s.vocabulary⟩ := hcur
    rw [and_iff_right hcur', h'.cloneEqual_iff hcur']
    dsimp only
    rw [names_changeELFFormat h.wired]
    rfl
  | updateVocabulary edits =>
    obtain rfl := Option.some.inj hstep
    have hv := Vocabulary.sound_make edits
    have hren := updateFields_renewed hv s.codec.format s.codec.fieldMap
    constructor
    · rintro ⟨hcur', -⟩ e he
      obtain ⟨i, hi⟩ := List.mem_iff_getElem?.1 he
      obtain ⟨e', he', hR⟩ := forall₂_getElem? hren hi
      have hne := (hcur' e' (List.mem_of_getElem? he')).1
      rwa [hR.termId hv] at hne
    · intro hdef
      have hcur' : Current ⟨(s.codec.updateVocabulary (Vocabulary.make edits)).1,
          Vocabulary.make edits⟩ := by
        intro e' he'
        obtain ⟨i, hi⟩ := List.mem_iff_getElem?.1 he'
        have hlt : i < s.codec.fieldMap.length :=
          hren.length_eq ▸ (List.getElem?_eq_some_iff.1 hi).1
        have hmem := h.wired.mem_format hperm (List.getElem?_eq_getElem hlt)
        exact updateFields_carriesTerm hv _ hdef hmem hi
      refine ⟨hcur', (h'.cloneEqual_iff hcur').2 ?_⟩
      obtain ⟨hfields, hnames⟩ := names_updateVocabulary (c := s.codec) hv
      rw [hfields, hnames]
      exact hperm
  | clone =>
    obtain rfl := Option.some.inj hstep
    obtain ⟨d, hd, hsame⟩ := hclone
    have hcodec : s.codec.clone.toOption.getD s.codec = d := by rw [hd]; rfl
    simp only [hcodec] at h' ⊢
    obtain ⟨-, hnodup, rfl⟩ := clone_ok.1 hd
    have hcur' : Current ⟨s.codec.blank.extend s.codec.fields, s.vocabulary⟩ := by
      intro e he
      obtain ⟨f, hf, rfl⟩ := List.mem_map.1 he
      exact (hcur (f.logField, f) (h.wired.mem_of_mem_fields hf) : CarriesTerm _ (_, f))
    refine iff_of_true ⟨hcur', (h'.cloneEqual_iff hcur').2 ?_⟩ trivial
    dsimp only
    rw [fields_extend_blank, names_extend, List.map_map]
    rfl

/-! ### The configured codec -/

lemma mapFields_ok (hv : v.Sound) {offset : ℤ} {cfgs : List FieldConfig}
    (h : mapFields v offset c cfgs = .ok d) :
    ∃ fs : List LogField, (∀ f ∈ fs, CarriesTerm v (f.logField, f) ∧ f.logField ≠ []) ∧
      fs.foldlM mapFieldToTerm c = .ok d := by
  induction cfgs generalizing c with
  | nil => exact ⟨[], by simp, h⟩
  | cons cfg cfgs ih =>
    rw [mapFields] at h
    cases hf : fieldOf v offset cfg with
    | error x => rw [hf] at h; cases h
    | ok f =>
      rw [hf] at h
      change (c.mapFieldToTerm f >>= fun c => mapFields v offset c cfgs) = .ok d at h
      cases hc : c.mapFieldToTerm f with
      | error x => rw [hc] at h; cases h
      | ok c' =>
        rw [hc] at h
        obtain ⟨fs, hfs, hfold⟩ := ih h
        refine ⟨f :: fs, ?_, ?_⟩
        · rw [List.forall_mem_cons]
          refine ⟨?_, hfs⟩
          rw [fieldOf] at hf
          split_ifs at hf with hfield _ hne
          obtain rfl := Except.ok.inj hf
          obtain ⟨hid, -⟩ := hv.get_findTerm hne
          refine ⟨⟨?_, ?_⟩, fun hnil => ?_⟩
          · show v.findTerm (v.get _).termId ≠ 0
            rwa [hid]
          · show v.get _ = v.get (v.findTerm (v.get _).termId)
            rw [hid]
          · have hnil : cfg.field = [] := hnil
            rw [hnil] at hfield
            exact hfield rfl
        · rw [List.foldlM_cons, hc]
          exact hfold

/-- The configured fields, which are all in the format, in their order. -/
structure Configured (v : Vocabulary) (c : LogCodec) (fs : List LogField) : Prop where
  current : ∀ f ∈ fs, CarriesTerm v (f.logField, f)
  named : ∀ f ∈ fs, f.logField ≠ []
  refs : (fs.map fun f => f.logTerm.termRef).Nodup
  names : (fs.map LogField.logField).Nodup
  fieldMap : c.fieldMap = fs.map fun f => (f.logField, created f)
  format : c.format = List.range c.fieldMap.length

lemma setConfig_configured (hv : v.Sound) {config : LogConfig} (h : setConfig v config = .ok c) :
    ∃ fs, Configured v c fs := by
  cases hmap : mapFields v config.timeOffset {} config.fields with
  | error x => rw [setConfig, hmap] at h; cases h
  | ok m =>
    obtain ⟨fs, hfs, hfold⟩ := mapFields_ok hv hmap
    obtain ⟨hrefs, hnames, rfl⟩ :=
      (foldlM_mapFieldToTerm (c := {}) List.nodup_nil List.nodup_nil).1 hfold
    have hfields : c.fieldMap = (fs.map fun f => (f.logField, created f)) ∧
        c.format = List.range' 0 fs.length := by
      rw [setConfig, hmap] at h
      change (if config.headers then _ else _) = _ at h
      split_ifs at h <;> obtain rfl := Except.ok.inj h <;> exact ⟨rfl, rfl⟩
    refine ⟨fs, fun f hf => (hfs f hf).1, fun f hf => (hfs f hf).2, hrefs, hnames, hfields.1, ?_⟩
    rw [hfields.1, List.length_map, hfields.2, List.range_eq_range']

variable {fs : List LogField}

lemma Configured.wired (hc : Configured v c fs) : Wired c := by
  constructor
  · intro e he
    rw [hc.fieldMap] at he
    obtain ⟨f, -, rfl⟩ := List.mem_map.1 he
    rfl
  · rw [LogCodec.names, hc.fieldMap, List.map_map]
    exact hc.names
  · -- two fields with one identifier would carry the same term
    rw [hc.fieldMap, List.map_map]
    refine List.Nodup.map_on (fun f hf g hg heq => ?_) (List.Nodup.of_map _ hc.refs)
    refine List.inj_on_of_nodup_map hc.refs hf hg ?_
    have hterm : f.logTerm = g.logTerm := by
      rw [(hc.current f hf).2, (hc.current g hg).2]
      exact congrArg (fun termId => v.get (v.findTerm termId)) heq
    exact congrArg Term.termRef hterm
  · intro e he hdate
    rw [hc.fieldMap] at he
    obtain ⟨f, -, rfl⟩ := List.mem_map.1 he
    exact if_pos hdate

lemma Configured.fields_eq (hc : Configured v c fs) : c.fields = c.fieldMap.map Prod.snd := by
  rw [fields, hc.format]
  exact filterMap_range_getElem? _ _

lemma setConfig_ok (hv : v.Sound) {config : LogConfig} (h : setConfig v config = .ok c) :
    Valid ⟨c, v⟩ ∧ Current ⟨c, v⟩ ∧ CloneEqual c := by
  obtain ⟨fs, hc⟩ := setConfig_configured hv h
  have hcur : Current ⟨c, v⟩ := by
    intro e he
    dsimp only at he
    rw [hc.fieldMap] at he
    obtain ⟨f, hf, rfl⟩ := List.mem_map.1 he
    exact hc.current f hf
  refine ⟨⟨hc.wired, hv⟩, hcur, ?_⟩
  refine (Valid.cloneEqual_iff ⟨hc.wired, hv⟩ hcur).2 ?_
  dsimp only
  rw [hc.fields_eq, List.map_map]
  refine List.Perm.of_eq (List.map_congr_left fun e he => ?_)
  exact (hc.wired.key e he).symm

/-- All fields carry their current terms, and the codec can be cloned, as long as every directive
names all mapped fields and every vocabulary defines their terms. -/
theorem logCodec_current_iff {edits : List Vocabulary.Edit} {config : LogConfig}
    (hc : setConfig (Vocabulary.make edits) config = .ok c) {es : List Step} {s : State}
    (h : run step ⟨c, Vocabulary.make edits⟩ es = some s) :
    (∀ u, ReachedIn step ⟨c, Vocabulary.make edits⟩ es u → Current u ∧ CloneEqual u.codec) ↔
      ∀ e u, HappensIn step ⟨c, Vocabulary.make edits⟩ es e u → NamesAll e u := by
  obtain ⟨hvalid, hcur, hclone⟩ := setConfig_ok (Vocabulary.sound_make edits) hc
  have hall : ∀ u, ReachedIn step ⟨c, Vocabulary.make edits⟩ es u → Valid u := by
    rintro u ⟨before, after, -, hu⟩
    exact run_invariant (fun t e t' ht he => ht.next he) hvalid hu
  refine Iff.trans ?_ (reached_iff
    (P := fun u => Valid u ∧ Current u ∧ CloneEqual u.codec) ⟨hvalid, hcur, hclone⟩
    (fun u e u' hu he => ?_) h)
  · exact forall₂_congr fun u hu => (and_iff_right (hall u hu)).symm
  · rw [and_iff_right (hu.1.next he)]
    exact hu.1.step_iff hu.2.1 hu.2.2 he

theorem logCodec_current_iff_reordered :
    let edits := [.addTerm { termId := ascii "t", termType := .int32 },
      .addTerm { termId := ascii "u", termType := .date, termFormat := ascii "%d" }]
    let changed := edits ++ [.updateTerm { termId := ascii "t", termType := .string }]
    let config : LogConfig :=
      { headers := true
        fields := [{ field := ascii "a", term := ascii "t" },
          { field := ascii "b", term := ascii "u" }] }
    let events := [.fields (ascii "b a"), .updateVocabulary changed, .clone]
    let start (c : LogCodec) : State := ⟨c, Vocabulary.make edits⟩
    ((setConfig (Vocabulary.make edits) config).toOption.bind fun c =>
        (run step (start c) events).map fun s => (s.codec.names, s.codec.refs)) =
      some ([ascii "b", ascii "a"], [2, 3]) ∧
      ∃ c, setConfig (Vocabulary.make edits) config = .ok c ∧
        ((∀ u, ReachedIn step (start c) events u → Current u ∧ CloneEqual u.codec) ↔
          ∀ e u, HappensIn step (start c) events e u → NamesAll e u) := by
  intro edits changed config events start
  have hrun : ((setConfig (Vocabulary.make edits) config).toOption.bind fun c =>
      (run step (start c) events).map fun s => (s.codec.names, s.codec.refs)) =
      some ([ascii "b", ascii "a"], [2, 3]) := by
    decide +kernel
  obtain ⟨c, hc, hmap⟩ := Option.bind_eq_some_iff.1 hrun
  obtain ⟨s, hs, -⟩ := Option.map_eq_some_iff.1 hmap
  have hok : setConfig (Vocabulary.make edits) config = .ok c := by
    cases hset : setConfig (Vocabulary.make edits) config with
    | error x => rw [hset] at hc; cases hc
    | ok d => rw [hset] at hc; exact congrArg Except.ok (Option.some.inj hc)
  exact ⟨hrun, c, hok, logCodec_current_iff hok hs⟩

/-- A directive leaves out a field: it keeps the term that it had, and is not cloned. -/
theorem logCodec_current_iff_fails :
    let edits := [.addTerm { termId := ascii "t", termType := .int32 },
      .addTerm { termId := ascii "u", termType := .int32 }]
    let changed := edits ++ [.updateTerm { termId := ascii "u", termType := .string }]
    let config : LogConfig :=
      { headers := true
        fields := [{ field := ascii "a", term := ascii "t" },
          { field := ascii "b", term := ascii "u" }] }
    let events := [.fields (ascii "a"), .updateVocabulary changed]
    ((setConfig (Vocabulary.make edits) config).toOption.bind fun c =>
        (run step ⟨c, Vocabulary.make edits⟩ events).map fun s =>
          (s.codec.refs, s.vocabulary.findTerm (ascii "u"), s.codec.names,
            s.codec.clone.toOption.elim [] names)) =
      some ([1, 2], 3, [ascii "a", ascii "b"], [ascii "a"]) := by
  intro edits changed config events
  decide +kernel

end LogCodec

end PionCore.Platform
