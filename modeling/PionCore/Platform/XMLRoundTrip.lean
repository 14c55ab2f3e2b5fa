/-
# Reading back what the XML codec has written

An event with values is an element with a start and an end, from which the reader makes the event.
An event without values is an element that has no end: the reader goes on to the end of the next
event, or to the end of all of them.
-/
import PionCore.Platform.XMLCodec

namespace PionCore.Platform

open PionCore.Lib

namespace XMLCodec

open FieldCodec SortedMultimap EventsDocument
open JSONCodec (IntegerOrText Writable SameValues Wired Knows pairs mem_pairs values_pairs)

variable {ω φ δ χ θ : Type*} {x : LibXML ω} {print : LogPrinters φ δ χ θ}
  {conv : LogConversions φ δ χ θ} {objects : List CodecField} {c : FieldCodec}

/-! ### The document of some events -/

/-- What is written for an integer or a string. -/
def valueText : ParameterValue φ δ χ θ → Bytes
  | .int32 v => decimal v.toInt
  | .uint32 v => percentD v
  | .int64 v => decimal v.toInt
  | .uint64 v => numeral 10 v.toNat
  | .blob v => v
  | _ => []

/-- The elements of an event. -/
def elementsOf (fs : List CodecField) (e : Event φ δ χ θ) : List (Bytes × Bytes) :=
  (pairs fs e).map fun p => (p.1.fieldName, valueText p.2)

def document (objects : List CodecField) (c : FieldCodec) (es : List (Event φ δ χ θ)) :
    EventsDocument :=
  ⟨c.eventContainerTag, c.eventTag, es.map (elementsOf (fields objects c))⟩

/-- The strings for the fields are not empty, and have characters of XML only. -/
def HasText (fs : List CodecField) (e : Event φ δ χ θ) : Prop :=
  ∀ f ∈ fs, ∀ s, .blob s ∈ values f.term.termRef e → s ≠ [] ∧ isXMLText s = true

lemma valueContent_eq {f : CodecField} {v : ParameterValue φ δ χ θ} (h : IntegerOrText f v)
    (htext : ∀ s, v = .blob s → isXMLText s = true) :
    valueContent print f v = some (some (valueText v)) := by
  have hcString : ∀ s, v = .blob s → LogCodec.cString s = s := fun s hs =>
    LogCodec.cString_eq (ne_zero_of_isXMLText (htext s hs))
  cases htype : f.term.termType <;> cases v <;>
    simp only [IntegerOrText, htype] at h <;>
    simp only [valueContent, htype, valueText]
  case char.blob v => rw [List.take_of_length_le h.2, hcString v rfl]
  all_goals rw [hcString _ rfl]

lemma valuesCalls_eq {f : CodecField} (ps : List (ℕ × ParameterValue φ δ χ θ))
    (h : ∀ p ∈ ps, IntegerOrText f p.2 ∧ ∀ s, p.2 = .blob s → isXMLText s = true) :
    valuesCalls print f ps =
      some (ps.map fun p => WriterCall.writeElement f.fieldName (valueText p.2)) := by
  induction ps with
  | nil => rfl
  | cons p ps ih =>
    obtain ⟨hp, hps⟩ := List.forall_mem_cons.1 h
    rw [valuesCalls, valueContent_eq hp.1 hp.2, Option.bind_some, ih hps]
    rfl

/-- The calls for the fields of an event are those for its elements. -/
lemma fieldsCalls_eq {fs gs : List CodecField} {e : Event φ δ χ θ} (h : Writable fs e)
    (htext : HasText fs e) (hgs : ∀ f ∈ gs, f ∈ fs) :
    fieldsCalls print e gs =
      some ((elementsOf gs e).map fun p => WriterCall.writeElement p.1 p.2) := by
  induction gs with
  | nil => rfl
  | cons f gs ih =>
    have hvalues : valuesCalls print f
        (range (lowerBound f.term.termRef e) (upperBound f.term.termRef e) e) = _ :=
      valuesCalls_eq _ (by
        intro p hp
        rw [h.sorted.range_eq] at hp
        have hmem : p.2 ∈ values f.term.termRef e := List.mem_map_of_mem hp
        exact ⟨h.value f (hgs f List.mem_cons_self) p.2 hmem, fun s hs =>
          (htext f (hgs f List.mem_cons_self) s (hs ▸ hmem)).2⟩)
    rw [fieldsCalls, hvalues, Option.bind_some, ih fun g hg => hgs g (List.mem_cons_of_mem _ hg),
      h.sorted.range_eq, Option.map_some]
    simp [elementsOf, pairs, values, Function.comp_def]

/-- The texts of integers and of strings with characters of XML are such texts, and not empty. -/
lemma valid_valueText {f : CodecField} {v : ParameterValue φ δ χ θ} (h : IntegerOrText f v)
    (htext : ∀ s, v = .blob s → s ≠ [] ∧ isXMLText s = true) :
    valueText v ≠ [] ∧ isXMLText (valueText v) = true := by
  have hnumeral : ∀ n, ∀ b ∈ numeral 10 n, isXMLAscii b = true := by
    intro n b hb
    have hdigit := isDigit_of_mem_numeral hb
    simp only [isDigit, isXMLAscii, decide_eq_true_eq, UInt8.le_iff_toNat_le] at hdigit ⊢
    simp only [UInt8.reduceToNat] at hdigit ⊢
    omega
  have hdecimal : ∀ z, decimal z ≠ [] ∧ isXMLText (decimal z) = true := by
    intro z
    rw [decimal]
    split_ifs
    · exact ⟨numeral_ne_nil _ _, isXMLText_of_ascii (hnumeral _)⟩
    · exact ⟨by simp, isXMLText_of_ascii (List.forall_mem_cons.2 ⟨by decide, hnumeral _⟩)⟩
  cases v with
  | int32 v => exact hdecimal _
  | uint32 v => exact hdecimal _
  | int64 v => exact hdecimal _
  | uint64 v => exact ⟨numeral_ne_nil _ _, isXMLText_of_ascii (hnumeral _)⟩
  | blob s => exact htext s rfl
  | _ => cases htype : f.term.termType <;> simp [IntegerOrText, htype] at h

lemma valid_document {es : List (Event φ δ χ θ)}
    (htags : x.validName c.eventTag = true ∧
      (c.eventContainerTag ≠ [] → x.validName c.eventContainerTag = true))
    (hnames : ∀ f ∈ fields objects c, x.validName f.fieldName = true)
    (hes : ∀ e ∈ es, Writable (fields objects c) e ∧ HasText (fields objects c) e) :
    (document objects c es).Valid x := by
  refine ⟨htags.2, htags.1, fun o ho p hp => ?_⟩
  obtain ⟨e, he, rfl⟩ := List.mem_map.1 ho
  obtain ⟨q, hq, rfl⟩ := List.mem_map.1 hp
  obtain ⟨hf, hv⟩ := mem_pairs.1 hq
  exact ⟨hnames q.1 hf, valid_valueText ((hes e he).1.value q.1 hf q.2 hv) fun s hs =>
    (hes e he).2 q.1 hf s (hs ▸ hv)⟩

/-! ### The writer -/

lemma generate_append (g : ω × Bytes) (cs ds : List WriterCall) :
    x.generate g (cs ++ ds) = x.generate (x.generate g cs) ds := List.foldl_append

/-- What is in the buffer already stays there. -/
lemma generate_buffer (g : ω) (buf : Bytes) (cs : List WriterCall) :
    x.generate (g, buf) cs = ((x.generate (g, []) cs).1, buf ++ (x.generate (g, []) cs).2) := by
  induction cs generalizing g buf with
  | nil => simp [LibXML.generate]
  | cons call cs ih =>
    have hcons : ∀ buf, x.generate (g, buf) (call :: cs) =
        x.generate ((x.write g call).1, buf ++ (x.write g call).2) cs := fun _ => rfl
    rw [hcons, hcons, ih, ih _ ([] ++ (x.write g call).2), List.nil_append, List.append_assoc]

/-- The buffer may be emptied between the calls. -/
lemma generate_clear (g : ω × Bytes) (cs ds : List WriterCall) :
    x.generate g (cs ++ ds) =
      ((x.generate ((x.generate g cs).1, []) ds).1,
        (x.generate g cs).2 ++ (x.generate ((x.generate g cs).1, []) ds).2) := by
  rw [generate_append, ← generate_buffer]

lemma write_eq {e : Event φ δ χ θ} (h : Writable (fields objects c) e)
    (htext : HasText (fields objects c) e) {w : Writer ω} {g : ω × Bytes}
    (hg : opened x c.eventContainerTag w = some g) :
    write x print objects c w e =
      some (⟨false, some
        (x.generate g (elementCalls c.eventTag (elementsOf (fields objects c) e))).1⟩,
        (x.generate g (elementCalls c.eventTag (elementsOf (fields objects c) e))).2) := by
  rw [write, hg, Option.bind_some, fieldsCalls_eq h htext fun f hf => hf]
  rfl

lemma writeEvents_eq {es : List (Event φ δ χ θ)}
    (hes : ∀ e ∈ es, Writable (fields objects c) e ∧ HasText (fields objects c) e) (g : ω) :
    writeEvents x print objects c ⟨false, some g⟩ es =
      some (⟨false, some (x.generate (g, [])
          ((document objects c es).events.flatMap (elementCalls c.eventTag))).1⟩,
        (x.generate (g, [])
          ((document objects c es).events.flatMap (elementCalls c.eventTag))).2) := by
  induction es generalizing g with
  | nil => rfl
  | cons e es ih =>
    obtain ⟨he, hes⟩ := List.forall_mem_cons.1 hes
    have hcalls : (document objects c (e :: es)).events.flatMap (elementCalls c.eventTag) =
        elementCalls c.eventTag (elementsOf (fields objects c) e) ++
          (document objects c es).events.flatMap (elementCalls c.eventTag) := rfl
    rw [writeEvents, write_eq he.1 he.2 rfl, Option.bind_some, ih hes, hcalls, generate_clear]
    rfl

/-- The text of some events is the text of their document; without events nothing is written. -/
lemma writeAll_eq {es : List (Event φ δ χ θ)}
    (hes : ∀ e ∈ es, Writable (fields objects c) e ∧ HasText (fields objects c) e) :
    writeAll x print objects c es =
      some (if es = [] then [] else x.text (document objects c es)) := by
  cases es with
  | nil => rfl
  | cons e es =>
    obtain ⟨he, hes⟩ := List.forall_mem_cons.1 hes
    have hcalls : (document objects c (e :: es)).calls =
        ((openCalls c.eventContainerTag ++
          elementCalls c.eventTag (elementsOf (fields objects c) e)) ++
          (document objects c es).events.flatMap (elementCalls c.eventTag)) ++ [.endDocument] := by
      simp [EventsDocument.calls, document]
    have hfirst : opened x c.eventContainerTag ({} : Writer ω) =
        some (x.generate (x.newWriter, []) (openCalls c.eventContainerTag)) := rfl
    rw [writeAll, writeEvents, write_eq he.1 he.2 hfirst, Option.bind_some, writeEvents_eq hes,
      if_neg (by simp), LibXML.text, hcalls, generate_clear, generate_clear,
      generate_append _ (openCalls c.eventContainerTag)]
    rfl

/-! ### The values of an event -/

/-- A text as the reader sees it: it does not look at a text that is blank. -/
def seenText (s : Bytes) : Bytes := if isBlank s then [] else s

def seenValue : ParameterValue φ δ χ θ → ParameterValue φ δ χ θ
  | .blob s => .blob (seenText s)
  | v => v

/-- The event that is read for an event with values. -/
def seenEvent (fs : List CodecField) (e : Event φ δ χ θ) : Event φ δ χ θ :=
  insertAll [] ((pairs fs e).map fun p => (p.1.term.termRef, seenValue p.2))

lemma isBlank_numeral (n : ℕ) : isBlank (numeral 10 n) = false := by
  obtain ⟨b, ds, hds⟩ := List.exists_cons_of_ne_nil (numeral_ne_nil 10 n)
  have hdigit : isDigit b = true := isDigit_of_mem_numeral (n := n) (hds ▸ List.mem_cons_self)
  have hb : ¬ (b = 32 ∨ b = 9 ∨ b = 10 ∨ b = 13) := by
    rintro (rfl | rfl | rfl | rfl) <;> exact absurd hdigit (by decide)
  rw [hds, isBlank, List.all_cons]
  simp [hb]

lemma isBlank_decimal (z : ℤ) : isBlank (decimal z) = false := by
  rw [decimal]
  split_ifs
  · exact isBlank_numeral _
  · rfl

/-- What the codec relies on: a number that is printed is converted back, also an unsigned one that
is printed with a sign; and valid strings are copied. -/
structure ConvertsBack (conv : LogConversions φ δ χ θ) : Prop where
  prints : LogCodec.PrintsBack conv
  toUInt32 : ∀ v, conv.toUInt32 (percentD v) = some v
  utf8 : ∀ s, ValidUTF8 s → conv.makeUTF8Blob s = some s

lemma setValue_eq (hconv : ConvertsBack conv) {f : CodecField} {v : ParameterValue φ δ χ θ}
    (h : IntegerOrText f v) (e : Event φ δ χ θ) :
    setValue conv objects c f e (seenText (valueText v)) =
      some (e.insert f.term.termRef (seenValue v)) := by
  have hseen : ∀ s, ValidUTF8 s → conv.makeUTF8Blob (seenText s) = some (seenText s) := by
    intro s hs
    refine hconv.utf8 _ ?_
    rw [seenText]
    split_ifs
    · exact ValidUTF8.nil
    · exact hs
  cases htype : f.term.termType <;> cases v <;>
    simp only [IntegerOrText, htype] at h <;>
    simp only [setValue, JSONCodec.setValue, htype, valueText, seenValue]
  case int8.int32 v | int16.int32 v | int32.int32 v =>
    rw [seenText, isBlank_decimal, if_neg (by simp), hconv.prints.toInt32]
    rfl
  case uint8.uint32 v | uint16.uint32 v | uint32.uint32 v =>
    rw [seenText, percentD, isBlank_decimal, if_neg (by simp)]
    exact congrArg _ (congrArg _ (hconv.toUInt32 v))
  case int64.int64 v =>
    rw [seenText, isBlank_decimal, if_neg (by simp), hconv.prints.toInt64]
    rfl
  case uint64.uint64 v =>
    rw [seenText, isBlank_numeral, if_neg (by simp), hconv.prints.toUInt64]
    rfl
  case shortString.blob v | string.blob v | longString.blob v =>
    rw [Event.setString, hseen v h]
    rfl
  case char.blob v =>
    have hlen : (seenText v).length ≤ f.term.termSize := by
      rw [seenText]
      split_ifs
      · exact Nat.zero_le _
      · exact h.2
    rw [List.take_of_length_le hlen, Event.setString, hseen v h.1]
    rfl
  case blob.blob v | zblob.blob v => rfl

/-! ### The nodes of an event -/

variable {fs : List CodecField} {e : Event φ δ χ θ} {ks : List ReaderNode}

lemma readFields_value (hconv : ConvertsBack conv) {f : CodecField} {v : ParameterValue φ δ χ θ}
    (hfield : JSONCodec.fieldOfName objects c f.fieldName = some f) (h : IntegerOrText f v) :
    readFields conv objects c e (.outside []) (valueNodes (f.fieldName, valueText v) ++ ks) =
      readFields conv objects c (e.insert f.term.termRef (seenValue v)) (.outside []) ks := by
  have hnode : readFields conv objects c e (.field f f.fieldName [])
      (textNode (valueText v) :: .endElement f.fieldName :: ks) =
      readFields conv objects c e (.field f f.fieldName (seenText (valueText v)))
        (.endElement f.fieldName :: ks) := by
    rw [textNode, seenText]
    split_ifs <;> rfl
  show readFields conv objects c e (.outside [])
    (.element f.fieldName false :: textNode (valueText v) :: .endElement f.fieldName :: ks) = _
  rw [readFields, if_neg (by simp), if_neg (by simp), hfield]
  dsimp only
  rw [hnode, readFields, if_pos rfl, setValue_eq hconv h]

lemma readFields_values (hconv : ConvertsBack conv)
    (ps : List (CodecField × ParameterValue φ δ χ θ))
    (hps : ∀ p ∈ ps, JSONCodec.fieldOfName objects c p.1.fieldName = some p.1 ∧
      IntegerOrText p.1 p.2) :
    readFields conv objects c e (.outside [])
        ((ps.map fun p => (p.1.fieldName, valueText p.2)).flatMap valueNodes ++ ks) =
      readFields conv objects c
        (insertAll e (ps.map fun p => (p.1.term.termRef, seenValue p.2))) (.outside []) ks := by
  induction ps generalizing e with
  | nil => rfl
  | cons p ps ih =>
    obtain ⟨⟨hfield, hvalue⟩, hps⟩ := List.forall_mem_cons.1 hps
    rw [List.map_cons, List.flatMap_cons, List.append_assoc, readFields_value hconv hfield hvalue]
    exact ih hps

lemma elementsOf_eq_nil : elementsOf fs e = [] ↔ pairs fs e = [] := List.map_eq_nil_iff

/-- A call of `read` in front of an event with values. -/
lemma readEvent_event (hconv : ConvertsBack conv) (hwired : Wired objects c (fields objects c))
    (he : Writable (fields objects c) e) (hne : pairs (fields objects c) e ≠ [])
    (ks : List ReaderNode) (s : State) (broken : Bool) :
    ∃ s', readEvent conv objects c s
        (eventNodes c.eventTag (elementsOf (fields objects c) e) ++ ks) broken =
        (.event (seenEvent (fields objects c) e), s') ∧ s'.reader = some (ks, broken) := by
  have hnodes : eventNodes c.eventTag (elementsOf (fields objects c) e) ++ ks =
      .element c.eventTag false :: ((elementsOf (fields objects c) e).flatMap valueNodes ++
        (.endElement c.eventTag :: ks)) := by
    rw [eventNodes, if_neg (mt elementsOf_eq_nil.1 hne)]
    simp
  have hread : readFields conv objects c [] (.outside [])
      ((elementsOf (fields objects c) e).flatMap valueNodes ++ (.endElement c.eventTag :: ks)) =
      some (seenEvent (fields objects c) e, ks, false) := by
    rw [elementsOf, readFields_values hconv, readFields, if_pos rfl]
    · rfl
    · intro p hp
      obtain ⟨hf, hv⟩ := mem_pairs.1 hp
      exact ⟨hwired.knows p.1 hf, he.value p.1 hf p.2 hv⟩
  refine ⟨{ s with eof := s.eof || false, reader := some (ks, broken) }, ?_, rfl⟩
  rw [hnodes, readEvent, findEvent, if_pos rfl]
  dsimp only
  rw [hread]

/-! ### The nodes of some events -/

/-- The tags of the fields are not those of the events. -/
def Apart (c : FieldCodec) (fs : List CodecField) : Prop :=
  ∀ f ∈ fs, f.fieldName ≠ c.eventTag ∧
    (c.eventContainerTag ≠ [] → f.fieldName ≠ c.eventContainerTag)

/-- The nodes behind the events. -/
def closing (c : FieldCodec) : List ReaderNode :=
  if c.eventContainerTag = [] then [] else [.endElement c.eventContainerTag]

/-- The nodes of some events, to the end. -/
def remaining (objects : List CodecField) (c : FieldCodec) (es : List (Event φ δ χ θ)) :
    List ReaderNode :=
  (document objects c es).events.flatMap (eventNodes c.eventTag) ++ closing c

lemma remaining_cons (e : Event φ δ χ θ) (es : List (Event φ δ χ θ)) :
    remaining objects c (e :: es) =
      eventNodes c.eventTag (elementsOf (fields objects c) e) ++ remaining objects c es := by
  simp [remaining, document]

/-- The events that are read: behind an event without values, the reader is in the event still. -/
def seenEvents (c : FieldCodec) (fs : List CodecField) :
    Bool → List (Event φ δ χ θ) → List (Event φ δ χ θ)
  | false, [] => if c.eventContainerTag ≠ [] ∧ c.eventContainerTag = c.eventTag then [[]] else []
  | true, [] => if c.eventContainerTag = [] then [] else [[]]
  | false, e :: es =>
    if pairs fs e = [] then seenEvents c fs true es
    else seenEvent fs e :: seenEvents c fs false es
  | true, e :: es =>
    if pairs fs e = [] then seenEvents c fs true es else [] :: seenEvents c fs false es

/-- What an event that is open makes of the nodes of the next one that has values. -/
def swallowed (objects : List CodecField) (c : FieldCodec) :
    List (Event φ δ χ θ) → Option (List ReaderNode × Bool)
  | [] =>
    if c.eventContainerTag = [] then none
    else some ([], decide (c.eventContainerTag ≠ c.eventTag))
  | e :: es =>
    if pairs (fields objects c) e = [] then swallowed objects c es
    else some (remaining objects c es, false)

lemma readFields_ignored (hapart : Apart c fs) (ps : List (CodecField × ParameterValue φ δ χ θ))
    (hps : ∀ p ∈ ps, p.1 ∈ fs) (htag : c.eventTag ≠ []) :
    readFields conv objects c e (.outside c.eventTag)
        ((ps.map fun p => (p.1.fieldName, valueText p.2)).flatMap valueNodes ++ ks) =
      readFields conv objects c e (.outside c.eventTag) ks := by
  induction ps with
  | nil => rfl
  | cons p ps ih =>
    obtain ⟨hp, hps⟩ := List.forall_mem_cons.1 hps
    obtain ⟨hevent, hcontainer⟩ := hapart p.1 hp
    have hnode : ∀ (s : Bytes) (ks : List ReaderNode),
        readFields conv objects c e (.outside c.eventTag) (textNode s :: ks) =
          readFields conv objects c e (.outside c.eventTag) ks := by
      intro s ks
      rw [textNode]
      split_ifs <;> rfl
    rw [List.map_cons, List.flatMap_cons, List.append_assoc]
    show readFields conv objects c e (.outside c.eventTag)
      (.element p.1.fieldName false :: textNode (valueText p.2) :: .endElement p.1.fieldName ::
        _) = _
    rw [readFields, if_pos htag, hnode, readFields, if_neg hevent,
      if_neg (fun h => hcontainer h.1 h.2), if_neg hevent]
    exact ih hps

/-- An event without values goes on to the end of the next event that has values. -/
lemma readFields_swallowed (htag : c.eventTag ≠ []) (es : List (Event φ δ χ θ))
    (hapart : es ≠ [] → Apart c (fields objects c))
    (hname : Apart c (fields objects c) → JSONCodec.fieldOfName objects c c.eventTag = none) :
    readFields conv objects c [] (.outside []) (remaining objects c es) =
      (swallowed objects c es).map fun p => (([] : Event φ δ χ θ), p) := by
  induction es with
  | nil =>
    show readFields conv objects c [] (.outside []) (closing c) = _
    rw [closing, swallowed]
    by_cases hcontainer : c.eventContainerTag = []
    · rw [if_pos hcontainer, if_pos hcontainer]
      rfl
    · rw [if_neg hcontainer, if_neg hcontainer, readFields]
      by_cases hsame : c.eventContainerTag = c.eventTag
      · rw [if_pos hsame]
        simp [hsame]
      · rw [if_neg hsame, if_pos ⟨hcontainer, rfl⟩]
        simp [hsame]
  | cons e es ih =>
    have hapart' := hapart (List.cons_ne_nil _ _)
    rw [remaining_cons, swallowed, eventNodes]
    by_cases hnil : pairs (fields objects c) e = []
    · rw [if_pos (elementsOf_eq_nil.2 hnil), if_pos hnil]
      show readFields conv objects c [] (.outside [])
        (.element c.eventTag true :: remaining objects c es) = _
      rw [readFields, if_neg (by simp), if_pos rfl]
      exact ih fun _ => hapart'
    · rw [if_neg (mt elementsOf_eq_nil.1 hnil), if_neg hnil]
      have hnodes : .element c.eventTag false ::
          (elementsOf (fields objects c) e).flatMap valueNodes ++ [.endElement c.eventTag] ++
            remaining objects c es =
          .element c.eventTag false :: ((elementsOf (fields objects c) e).flatMap valueNodes ++
            (.endElement c.eventTag :: remaining objects c es)) := by
        simp
      rw [hnodes, readFields, if_neg (by simp), if_neg (by simp), hname hapart']
      dsimp only
      rw [elementsOf, readFields_ignored hapart' _ (fun p hp => (mem_pairs.1 hp).1) htag,
        readFields, if_pos rfl]
      rfl

/-! ### Calls of `read` -/

/-- What the calls need of the codec. -/
structure Prepared (conv : LogConversions φ δ χ θ) (objects : List CodecField) (c : FieldCodec) :
    Prop where
  converts : ConvertsBack conv
  wired : Wired objects c (fields objects c)
  tag : c.eventTag ≠ []
  unnamed : Apart c (fields objects c) → JSONCodec.fieldOfName objects c c.eventTag = none

lemma read_of_reader {s : State} {broken : Bool} (hs : s.reader = some (ks, broken)) :
    read x conv objects c s = readEvent conv objects c s ks broken := by
  rw [read, hs]

lemma reads_none {s : State} (hs : s.reader = some ([], false)) (n : ℕ) :
    reads x conv objects c n s = [] := by
  cases n with
  | zero => rfl
  | succ n =>
    rw [reads, read_of_reader hs]
    rfl

lemma dropLast_tail {es : List (Event φ δ χ θ)} {P : Event φ δ χ θ → Prop}
    (h : ∀ e' ∈ (e :: es).dropLast, P e') : ∀ e' ∈ es.dropLast, P e' := by
  intro e' he'
  cases es with
  | nil => cases he'
  | cons e₁ es => exact h e' (List.mem_cons_of_mem e he')

/-- The events that are read when the reader is in an event without values. -/
lemma reads_swallowed {n : ℕ}
    (ih : ∀ es : List (Event φ δ χ θ), (∀ e ∈ es, Writable (fields objects c) e) →
      (∀ e ∈ es.dropLast, pairs (fields objects c) e = [] → Apart c (fields objects c)) →
      ∀ {s : State}, s.reader = some (remaining objects c es, false) →
        reads x conv objects c n s = (seenEvents c (fields objects c) false es).take n)
    (es : List (Event φ δ χ θ)) (hes : ∀ e ∈ es, Writable (fields objects c) e)
    (hapart : ∀ e ∈ es.dropLast, pairs (fields objects c) e = [] → Apart c (fields objects c))
    (s : State) :
    (match swallowed objects c es with
      | none => []
      | some p => [] :: reads x conv objects c n
          { s with eof := s.eof || p.2, reader := some (p.1, false) }) =
      (seenEvents c (fields objects c) true es).take (n + 1) := by
  induction es with
  | nil =>
    rw [swallowed, seenEvents]
    by_cases hcontainer : c.eventContainerTag = []
    · rw [if_pos hcontainer, if_pos hcontainer]
      rfl
    · rw [if_neg hcontainer, if_neg hcontainer]
      dsimp only
      rw [reads_none rfl, List.take_succ_cons, List.take_nil]
  | cons e es ih' =>
    obtain ⟨-, hes⟩ := List.forall_mem_cons.1 hes
    rw [swallowed, seenEvents]
    by_cases hnil : pairs (fields objects c) e = []
    · rw [if_pos hnil, if_pos hnil]
      exact ih' hes (dropLast_tail hapart)
    · rw [if_neg hnil, if_neg hnil]
      dsimp only
      rw [ih es hes (dropLast_tail hapart) rfl]
      rfl

/-- The events that are read behind the first start tag. -/
lemma reads_remaining (h : Prepared conv objects c) (es : List (Event φ δ χ θ))
    (hes : ∀ e ∈ es, Writable (fields objects c) e)
    (hapart : ∀ e ∈ es.dropLast, pairs (fields objects c) e = [] → Apart c (fields objects c))
    {s : State} (hs : s.reader = some (remaining objects c es, false)) (n : ℕ) :
    reads x conv objects c n s = (seenEvents c (fields objects c) false es).take n := by
  induction n generalizing es s with
  | zero => rfl
  | succ n ih =>
    rw [reads, read_of_reader hs]
    cases es with
    | nil =>
      rw [show remaining objects c [] = closing c from rfl, closing, seenEvents]
      by_cases hcontainer : c.eventContainerTag = []
      · rw [if_pos hcontainer, if_neg (fun h => h.1 hcontainer)]
        rfl
      · rw [if_neg hcontainer, readEvent, findEvent]
        by_cases hsame : c.eventContainerTag = c.eventTag
        · rw [if_pos hsame, if_pos ⟨hcontainer, hsame⟩]
          dsimp only
          rw [reads_none rfl, List.take_succ_cons, List.take_nil]
        · rw [if_neg hsame, if_pos ⟨hcontainer, rfl⟩, if_neg (fun h => hsame h.2)]
          rfl
    | cons e es =>
      obtain ⟨he, hes⟩ := List.forall_mem_cons.1 hes
      have hapart' := dropLast_tail hapart
      rw [remaining_cons]
      by_cases hnil : pairs (fields objects c) e = []
      · -- the event is open until the end of the next one
        have hread : readFields conv objects c [] (.outside []) (remaining objects c es) = _ :=
          readFields_swallowed h.tag es (fun hne => by
          obtain ⟨e₁, es, rfl⟩ := List.exists_cons_of_ne_nil hne
          exact hapart e List.mem_cons_self hnil) h.unnamed
        rw [eventNodes, if_pos (elementsOf_eq_nil.2 hnil), seenEvents, if_pos hnil]
        rw [List.singleton_append, readEvent, findEvent, if_pos rfl]
        dsimp only
        rw [hread]
        rw [← reads_swallowed ih es hes hapart' s]
        cases swallowed objects c es <;> rfl
      · obtain ⟨s', hread, hs'⟩ :=
          readEvent_event h.converts h.wired he hnil (remaining objects c es) s false
        rw [hread, seenEvents, if_neg hnil]
        dsimp only
        rw [ih es hes hapart' hs']
        rfl

/-! ### Which events are restored -/

lemma values_map (l : Event φ δ χ θ) (g : ParameterValue φ δ χ θ → ParameterValue φ δ χ θ)
    (ref : ℕ) : values ref (l.map fun p => (p.1, g p.2)) = (values ref l).map g := by
  simp [values, List.filter_map, Function.comp_def]

lemma values_seenEvent (hfs : (fs.map fun f => f.term.termRef).Nodup) (ref : ℕ) :
    values ref (seenEvent fs e) =
      (if ref ∈ fs.map (fun f => f.term.termRef) then values ref e else []).map seenValue := by
  have hmap : (pairs fs e).map (fun p => (p.1.term.termRef, seenValue p.2)) =
      ((pairs fs e).map fun p => (p.1.term.termRef, p.2)).map fun p => (p.1, seenValue p.2) := by
    rw [List.map_map]
    rfl
  rw [seenEvent, values_insertAll List.Pairwise.nil, hmap, values_map, values_pairs hfs]
  rfl

/-- An event is restored if none of its strings is blank. -/
lemma sameValues_seenEvent (hfs : (fs.map fun f => f.term.termRef).Nodup) (htext : HasText fs e) :
    SameValues fs e (seenEvent fs e) ↔
      ∀ f ∈ fs, ∀ s, .blob s ∈ values f.term.termRef e → isBlank s = false := by
  have hmem : ∀ f ∈ fs, values f.term.termRef (seenEvent fs e) =
      (values f.term.termRef e).map seenValue := fun f hf => by
    rw [values_seenEvent hfs, if_pos (List.mem_map_of_mem hf)]
  constructor
  · intro h f hf s hs
    have hperm := h.mapped f hf
    rw [hmem f hf] at hperm
    obtain ⟨v, -, hv⟩ := List.mem_map.1 (hperm.mem_iff.2 hs)
    cases v with
    | blob t =>
      obtain hseen : seenText t = s := ParameterValue.blob.inj hv
      rw [seenText] at hseen
      split_ifs at hseen with ht
      · exact absurd hseen.symm (htext f hf s hs).1
      · rw [← hseen]
        simpa using ht
    | _ => cases hv
  · intro h
    refine ⟨fun f hf => ?_, fun ref href => ?_⟩
    · have hsame : (values f.term.termRef e).map seenValue = values f.term.termRef e := by
        refine (List.map_congr_left fun v hv => ?_).trans (List.map_id _)
        cases v with
        | blob t =>
          show ParameterValue.blob (seenText t) = _
          rw [seenText, h f hf t hv]
          rfl
        | _ => rfl
      rw [hmem f hf, hsame]
    · rw [values_seenEvent hfs, if_neg href]
      rfl

/-- An event without values is the one without mapped values. -/
lemma sameValues_nil : SameValues fs e [] ↔ pairs fs e = [] := by
  constructor
  · intro h
    rw [List.eq_nil_iff_forall_not_mem]
    intro p hp
    obtain ⟨hf, hv⟩ := mem_pairs.1 hp
    rw [List.nil_perm.1 (h.mapped p.1 hf)] at hv
    cases hv
  · intro h
    refine ⟨fun f hf => ?_, fun _ _ => rfl⟩
    have hnil : values f.term.termRef e = [] := by
      rw [List.eq_nil_iff_forall_not_mem]
      intro v hv
      have hp : (f, v) ∈ pairs fs e := mem_pairs.2 ⟨hf, hv⟩
      rw [h] at hp
      cases hp
    rw [hnil]
    exact List.Perm.nil

/-- Every event but the last one has values.  Without a tag around the events the last one has
values, too; and it has none if the tag around the events is the tag of an event.  No string is
blank. -/
structure Separated (c : FieldCodec) (fs : List CodecField) (es : List (Event φ δ χ θ)) : Prop where
  values : ∀ e ∈ es.dropLast, pairs fs e ≠ []
  last : ∀ e ∈ es.getLast?, (pairs fs e = [] → c.eventContainerTag ≠ []) ∧
    (pairs fs e ≠ [] → c.eventContainerTag ≠ [] → c.eventContainerTag ≠ c.eventTag)
  text : ∀ e ∈ es, ∀ f ∈ fs, ∀ s, .blob s ∈ SortedMultimap.values f.term.termRef e →
    isBlank s = false

lemma length_seenEvents (es : List (Event φ δ χ θ)) (b : Bool) :
    (seenEvents c fs b es).length ≤ es.length + 1 := by
  induction es generalizing b with
  | nil =>
    cases b <;>
    · rw [seenEvents]
      split_ifs <;> simp
  | cons e es ih =>
    cases b <;>
    · rw [seenEvents]
      split_ifs
      · exact (ih _).trans (Nat.le_succ _)
      · exact Nat.succ_le_succ (ih _)

/-- An event with values in front is not read back from the rest. -/
lemma not_restored_cons (es : List (Event φ δ χ θ)) (hne : pairs fs e ≠ []) :
    ¬ List.Forall₂ (SameValues fs) (e :: es) (seenEvents c fs false es) := by
  induction es generalizing e with
  | nil =>
    intro h
    rw [seenEvents] at h
    split_ifs at h
    · exact hne (sameValues_nil.1 (List.forall₂_cons.1 h).1)
    · cases h
  | cons e₁ es ih =>
    intro h
    rw [seenEvents] at h
    split_ifs at h with hnil
    · -- the first event that is read has no values
      have hfirst : ∀ es : List (Event φ δ χ θ), ∀ d ∈ (seenEvents c fs true es).head?, d = [] := by
        intro es
        induction es with
        | nil =>
          intro d hd
          rw [seenEvents] at hd
          split_ifs at hd
          · cases hd
          · simpa using hd.symm
        | cons e₂ es ih =>
          intro d hd
          rw [seenEvents] at hd
          split_ifs at hd
          · exact ih d hd
          · simpa using hd.symm
      obtain ⟨d, ds, hd, -, hds⟩ := List.forall₂_cons_left_iff.1 h
      obtain rfl := hfirst es d (by rw [hds]; rfl)
      exact hne (sameValues_nil.1 hd)
    · exact ih hnil (List.forall₂_cons.1 h).2

/-- Behind an event without values, other events are not read back. -/
lemma not_restored_swallowed (es ds : List (Event φ δ χ θ)) (hne : ds ++ es ≠ []) :
    ¬ List.Forall₂ (SameValues fs) (e :: (ds ++ es)) (seenEvents c fs true es) := by
  induction es generalizing ds with
  | nil =>
    intro h
    have hlen := h.length_eq
    have hpos := List.length_pos_iff.2 hne
    have hle : (seenEvents c fs true ([] : List (Event φ δ χ θ))).length ≤ 1 :=
      length_seenEvents [] true
    rw [List.length_cons] at hlen
    omega
  | cons e₁ es ih =>
    intro h
    rw [seenEvents] at h
    split_ifs at h with hnil
    · refine ih (ds ++ [e₁]) (by simp) ?_
      rwa [List.append_assoc]
    · have htail := (List.forall₂_cons.1 h).2
      cases ds with
      | nil => exact not_restored_cons es hnil htail
      | cons d ds =>
        have hlen := htail.length_eq
        have hle : (seenEvents c fs false es).length ≤ es.length + 1 := length_seenEvents es false
        simp only [List.cons_append, List.length_cons, List.length_append] at hlen
        omega

/-- The events that are read are those that were written exactly if they are separated. -/
lemma restored_iff (hfs : (fs.map fun f => f.term.termRef).Nodup) {es : List (Event φ δ χ θ)}
    (hes : es ≠ []) (htext : ∀ e ∈ es, HasText fs e) :
    List.Forall₂ (SameValues fs) es (seenEvents c fs false es) ↔ Separated c fs es := by
  induction es with
  | nil => exact absurd rfl hes
  | cons e es ih =>
    obtain ⟨he, htexts⟩ := List.forall_mem_cons.1 htext
    have hsame := sameValues_seenEvent hfs he
    rw [seenEvents]
    by_cases hnil : pairs fs e = []
    · rw [if_pos hnil]
      have hblank : ∀ f ∈ fs, ∀ s, .blob s ∈ values f.term.termRef e → isBlank s = false := by
        intro f hf s hs
        have hp : (f, .blob s) ∈ pairs fs e := mem_pairs.2 ⟨hf, hs⟩
        rw [hnil] at hp
        cases hp
      cases es with
      | nil =>
        rw [seenEvents]
        split_ifs with hcontainer
        · refine ⟨fun h => (by cases h), fun h => ?_⟩
          exact absurd hcontainer ((h.last e rfl).1 hnil)
        · refine ⟨fun _ => ⟨by simp, ?_, ?_⟩, fun _ =>
            List.Forall₂.cons (sameValues_nil.2 hnil) List.Forall₂.nil⟩
          · intro e' he'
            obtain rfl : e = e' := Option.some.inj he'
            exact ⟨fun _ => hcontainer, fun h => absurd hnil h⟩
          · exact List.forall_mem_cons.2 ⟨hblank, by simp⟩
      | cons e₁ es =>
        constructor
        · intro h
          exact absurd h (not_restored_swallowed (e₁ :: es) [] (by simp))
        · intro h
          exact absurd hnil (h.values e List.mem_cons_self)
    · rw [if_neg hnil, List.forall₂_cons, hsame]
      cases es with
      | nil =>
        rw [seenEvents]
        split_ifs with hcontainer
        · refine ⟨fun h => (by cases h.2), fun h => ?_⟩
          exact absurd hcontainer.2 ((h.last e rfl).2 hnil hcontainer.1)
        · refine ⟨fun h => ⟨by simp, ?_, List.forall_mem_cons.2 ⟨h.1, by simp⟩⟩,
            fun h => ⟨h.text e List.mem_cons_self, List.Forall₂.nil⟩⟩
          intro e' he'
          obtain rfl : e = e' := Option.some.inj he'
          exact ⟨fun h => absurd h hnil, fun _ hne heq => hcontainer ⟨hne, heq⟩⟩
      | cons e₁ es =>
        rw [ih (by simp) htexts]
        constructor
        · rintro ⟨hblank, h⟩
          refine ⟨?_, ?_, List.forall_mem_cons.2 ⟨hblank, h.text⟩⟩
          · rw [List.dropLast_cons_cons]
            exact List.forall_mem_cons.2 ⟨hnil, h.values⟩
          · rw [List.getLast?_cons_cons]
            exact h.last
        · intro h
          obtain ⟨hblank, htext⟩ := List.forall_mem_cons.1 h.text
          refine ⟨hblank, ⟨dropLast_tail h.values, ?_, htext⟩⟩
          have hlast := h.last
          rwa [List.getLast?_cons_cons] at hlast

/-! ### Events without a tag around them -/

/-- An end at which an event may end. -/
def isEnd (c : FieldCodec) : ReaderNode → Bool
  | .endElement name =>
    name = c.eventTag ∨ c.eventContainerTag ≠ [] ∧ name = c.eventContainerTag
  | _ => false

lemma readFields_isEnd {e' : Event φ δ χ θ} {mode : Mode} {ks' : List ReaderNode} {b : Bool}
    (h : readFields conv objects c e mode ks = some (e', ks', b)) :
    ks'.countP (isEnd c) + 1 ≤ ks.countP (isEnd c) := by
  induction ks generalizing e mode with
  | nil => cases h
  | cons k ks ih =>
    have hle : ks.countP (isEnd c) ≤ (k :: ks).countP (isEnd c) :=
      (List.sublist_cons_self k ks).countP_le
    cases mode with
    | outside openName =>
      cases k with
      | endElement name =>
        rw [readFields] at h
        split_ifs at h with hevent hcontainer hopen
        · obtain ⟨-, rfl, -⟩ := Option.some.inj h
          rw [List.countP_cons_of_pos (by simp [isEnd, hevent])]
        · obtain ⟨-, rfl, -⟩ := Option.some.inj h
          rw [List.countP_cons_of_pos (by simp [isEnd, hcontainer])]
        all_goals exact (ih h).trans hle
      | element name isEmpty =>
        rw [readFields] at h
        split_ifs at h
        · exact (ih h).trans hle
        · exact (ih h).trans hle
        · cases hf : JSONCodec.fieldOfName objects c name with
          | none =>
            rw [hf] at h
            exact (ih h).trans hle
          | some f =>
            rw [hf] at h
            exact (ih h).trans hle
      | text s => exact (ih h).trans hle
      | cdata s => exact (ih h).trans hle
      | other => exact (ih h).trans hle
    | field f openName value =>
      cases k with
      | endElement name =>
        rw [readFields] at h
        split_ifs at h
        · cases hset : setValue conv objects c f e value with
          | none =>
            rw [hset] at h
            cases h
          | some e₁ =>
            rw [hset] at h
            exact (ih h).trans hle
        · exact (ih h).trans hle
      | element name isEmpty => exact (ih h).trans hle
      | text s => exact (ih h).trans hle
      | cdata s => exact (ih h).trans hle
      | other => exact (ih h).trans hle

lemma findEvent_isEnd (c : FieldCodec) (ks : List ReaderNode) :
    (∀ ks', findEvent c ks = .start ks' → ks'.countP (isEnd c) ≤ ks.countP (isEnd c)) ∧
      ∀ ks', findEvent c ks = .emptyEvent ks' →
        ks'.countP (isEnd c) + 1 ≤ ks.countP (isEnd c) := by
  induction ks with
  | nil => exact ⟨fun ks' h => (by cases h), fun ks' h => (by cases h)⟩
  | cons k ks ih =>
    have hle : ks.countP (isEnd c) ≤ (k :: ks).countP (isEnd c) :=
      (List.sublist_cons_self k ks).countP_le
    have hskip : findEvent c (k :: ks) = findEvent c ks →
        (∀ ks', findEvent c (k :: ks) = .start ks' →
          ks'.countP (isEnd c) ≤ (k :: ks).countP (isEnd c)) ∧
        ∀ ks', findEvent c (k :: ks) = .emptyEvent ks' →
          ks'.countP (isEnd c) + 1 ≤ (k :: ks).countP (isEnd c) := fun hskip =>
      ⟨fun ks' h => (ih.1 ks' (hskip ▸ h)).trans hle, fun ks' h =>
        (ih.2 ks' (hskip ▸ h)).trans hle⟩
    cases k with
    | element name isEmpty =>
      by_cases hevent : name = c.eventTag
      · have hstart : findEvent c (.element name isEmpty :: ks) = .start ks := by
          rw [findEvent, if_pos hevent]
        refine ⟨fun ks' h => ?_, fun ks' h => ?_⟩
        · obtain rfl := Found.start.inj (hstart.symm.trans h)
          exact hle
        · cases hstart.symm.trans h
      · exact hskip (by rw [findEvent, if_neg hevent])
    | endElement name =>
      by_cases hevent : name = c.eventTag
      · have hempty : findEvent c (.endElement name :: ks) = .emptyEvent ks := by
          rw [findEvent, if_pos hevent]
        refine ⟨fun ks' h => ?_, fun ks' h => ?_⟩
        · cases hempty.symm.trans h
        · obtain rfl := Found.emptyEvent.inj (hempty.symm.trans h)
          rw [List.countP_cons_of_pos (by simp [isEnd, hevent])]
      · by_cases hcontainer : c.eventContainerTag ≠ [] ∧ name = c.eventContainerTag
        · have hend : findEvent c (.endElement name :: ks) = .containerEnd ks := by
            rw [findEvent, if_neg hevent, if_pos hcontainer]
          exact ⟨fun ks' h => (by cases hend.symm.trans h), fun ks' h =>
            (by cases hend.symm.trans h)⟩
        · exact hskip (by rw [findEvent, if_neg hevent, if_neg hcontainer])
    | text s => exact hskip rfl
    | cdata s => exact hskip rfl
    | other => exact hskip rfl

/-- Each event that is read takes an end. -/
lemma length_reads {s : State} {broken : Bool} (hs : s.reader = some (ks, broken)) (n : ℕ) :
    (reads x conv objects c n s).length ≤ ks.countP (isEnd c) := by
  induction n generalizing s ks with
  | zero => exact Nat.zero_le _
  | succ n ih =>
    obtain ⟨hstart, hempty⟩ := findEvent_isEnd c ks
    rw [reads, read_of_reader hs, readEvent]
    cases hfound : findEvent c ks with
    | noNode => cases broken <;> exact Nat.zero_le _
    | containerEnd ks' => exact Nat.zero_le _
    | emptyEvent ks' =>
      exact (Nat.succ_le_succ (ih rfl)).trans (hempty ks' hfound)
    | start ks' =>
      dsimp only
      cases hread : readFields conv objects c [] (.outside []) ks' with
      | none => exact Nat.zero_le _
      | some p =>
        exact (Nat.succ_le_succ (ih rfl)).trans
          ((readFields_isEnd hread).trans (hstart ks' hfound))

lemma countP_eventNodes (hapart : Apart c fs) :
    (eventNodes c.eventTag (elementsOf fs e)).countP (isEnd c) ≤ 1 := by
  have hnone : ((elementsOf fs e).flatMap valueNodes).countP (isEnd c) = 0 := by
    rw [List.countP_eq_zero]
    intro k hk
    obtain ⟨o, ho, hk⟩ := List.mem_flatMap.1 hk
    obtain ⟨p, hp, rfl⟩ := List.mem_map.1 ho
    obtain ⟨hevent, hcontainer⟩ := hapart p.1 (mem_pairs.1 hp).1
    rcases List.mem_cons.1 hk with rfl | hk
    · simp [isEnd]
    · rcases List.mem_cons.1 hk with rfl | hk
      · rw [textNode]
        split_ifs <;> simp [isEnd]
      · obtain rfl := List.mem_singleton.1 hk
        simp only [isEnd, hevent, false_or, decide_eq_true_eq]
        exact fun h => hcontainer h.1 h.2
  rw [eventNodes]
  split_ifs
  · simp [isEnd]
  · rw [List.countP_append, List.countP_cons, hnone]
    simp [isEnd]

/-! ### The first call of `read` -/

/-- The reader that is open does not matter for a call that has the nodes. -/
lemma readEvent_reader (s : State) (r : Option (List ReaderNode × Bool)) (ks : List ReaderNode)
    (broken : Bool) :
    readEvent conv objects c { s with reader := r } ks broken =
      readEvent conv objects c s ks broken := by
  rw [readEvent, readEvent]

/-- A text whose nodes are those of some events, with the tag around them. -/
lemma reads_first {out : Bytes} (hfields : c.fieldMap ≠ []) {broken : Bool}
    (hparse : x.parse out = (if c.eventContainerTag = [] then ks
      else .element c.eventContainerTag false :: ks, broken)) (n : ℕ) :
    reads x conv objects c n { stream := out } =
      reads x conv objects c n { stream := [], reader := some (ks, broken) } := by
  have hread : read x conv objects c { stream := out } =
      readEvent conv objects c { stream := [] } ks broken := by
    rw [read]
    dsimp only
    rw [if_neg hfields, hparse]
    by_cases hcontainer : c.eventContainerTag = []
    · rw [if_pos hcontainer, if_pos hcontainer]
    · rw [if_neg hcontainer, if_neg hcontainer, skipTo, if_pos rfl]
  cases n with
  | zero => rfl
  | succ n =>
    rw [reads, reads, hread, read_of_reader rfl,
      readEvent_reader { stream := [] } (some (ks, broken))]

/-- A codec that is not configured, or a text that is empty: no event is read. -/
lemma reads_nothing {out : Bytes} (h : c.fieldMap = [] ∨ x.parse out = ([], true)) (n : ℕ) :
    reads x conv objects c n { stream := out } = [] := by
  cases n with
  | zero => rfl
  | succ n =>
    rw [reads, read]
    dsimp only
    by_cases hfields : c.fieldMap = []
    · rw [if_pos hfields]
    · rw [if_neg hfields, h.resolve_left hfields]
      by_cases hcontainer : c.eventContainerTag = []
      · rw [if_pos hcontainer]
        rfl
      · rw [if_neg hcontainer]
        rfl

lemma mapFields_tags {v : Vocabulary} (cfgs : List (Bytes × Bytes)) {d : FieldCodec}
    {objects' : List CodecField} (h : mapFields v objects c cfgs = .ok (objects', d)) :
    d.eventTag = c.eventTag := by
  induction cfgs generalizing objects c with
  | nil =>
    obtain ⟨-, rfl⟩ := Prod.mk.inj (Except.ok.inj h)
    rfl
  | cons cfg cfgs ih =>
    obtain ⟨field, termId⟩ := cfg
    rw [mapFields] at h
    split_ifs at h
    rw [mapFieldToTerm] at h
    split_ifs at h
    exact (ih h).trans rfl

lemma eventTag_ne_nil {v : Vocabulary} {config : FieldCodec.Config}
    (h : setConfig .xml v config = .ok (objects, c)) : c.eventTag ≠ [] := by
  rw [setConfig] at h
  cases hmap : mapFields v [] (start .xml config) config.fields with
  | error exception => simp [hmap] at h
  | ok p =>
    obtain ⟨objects', d⟩ := p
    simp only [hmap] at h
    cases hptr : pointToFields objects' d.fieldMap [] with
    | error exception => simp [hptr] at h
    | ok ptrMap =>
      simp only [hptr, Except.ok.injEq, Prod.mk.injEq] at h
      obtain ⟨rfl, rfl⟩ := h
      show d.eventTag ≠ []
      rw [mapFields_tags _ hmap]
      show eventTagOf config ≠ []
      rw [eventTagOf]
      split
      · simp
      · decide

lemma fieldOfName_mem (hmapped : Mapped objects c) {name : Bytes} {f : CodecField}
    (h : JSONCodec.fieldOfName objects c name = some f) :
    f ∈ fields objects c ∧ f.fieldName = name := by
  obtain ⟨e, he, hobject⟩ := Option.bind_eq_some_iff.1 h
  have hmem : e ∈ c.fieldMap := List.mem_of_find?_eq_some he
  have hname : e.1 = name := by simpa using List.find?_some he
  have hfield := hmapped.name e hmem
  rw [hobject, Option.map_some, Option.some.injEq] at hfield
  refine ⟨List.mem_filterMap.2 ⟨e.2, ?_, hobject⟩, hfield.trans hname⟩
  rw [hmapped.format]
  exact List.mem_map_of_mem hmem

lemma prepared_of_setConfig (hconv : ConvertsBack conv) {v : Vocabulary} (hv : v.Sound)
    {config : FieldCodec.Config} (h : setConfig .xml v config = .ok (objects, c)) :
    Prepared conv objects c := by
  have hmapped : Mapped objects c := (setConfig_consistent hv h).2 (c, v) List.mem_cons_self
  refine ⟨hconv, JSONCodec.setConfig_wired hv h, eventTag_ne_nil h, fun hapart => ?_⟩
  by_contra hne
  obtain ⟨f, hf⟩ := Option.ne_none_iff_exists'.1 hne
  obtain ⟨hmem, hname⟩ := fieldOfName_mem hmapped hf
  exact (hapart f hmem).1 hname

/-! ### The round trip -/

/-- The events that the codec restores: there are fields, if there are events; without a tag around
the events there is one at most; and the events are separated. -/
structure Restorable (objects : List CodecField) (c : FieldCodec) (es : List (Event φ δ χ θ)) :
    Prop where
  fields : es ≠ [] → c.fieldMap ≠ []
  single : c.eventContainerTag = [] → es.length ≤ 1
  separated : Separated c (FieldCodec.fields objects c) es

/-- Every number of calls reads the first events that were written, and nothing behind them. -/
def Restores (x : LibXML ω) (conv : LogConversions φ δ χ θ) (objects : List CodecField)
    (c : FieldCodec) (es : List (Event φ δ χ θ)) (out : Bytes) : Prop :=
  ∀ n, List.Forall₂ (SameValues (fields objects c)) (es.take n)
    (reads x conv objects c n { stream := out })

lemma restores_iff {es ds : List (Event φ δ χ θ)} {out : Bytes}
    (h : ∀ n, reads x conv objects c n { stream := out } = ds.take n) :
    Restores x conv objects c es out ↔ List.Forall₂ (SameValues (fields objects c)) es ds := by
  constructor
  · intro hrestores
    have hall := hrestores (max es.length ds.length)
    rwa [h, List.take_of_length_le (le_max_left _ _),
      List.take_of_length_le (le_max_right _ _)] at hall
  · intro hall n
    rw [h]
    exact List.forall₂_take n hall

/-- The writer finishes with a text from which the events are read back if every event but the last
one has a mapped value, and so on (`Restorable`).  If no field has a tag of the events, then other
events are not read back. -/
theorem xml_round_trip (x : LibXML ω) (print : LogPrinters φ δ χ θ)
    (conv : LogConversions φ δ χ θ) {edits : List Vocabulary.Edit} {config : FieldCodec.Config}
    {objects : List CodecField} {c : FieldCodec} {es : List (Event φ δ χ θ)}
    (hconfig : setConfig .xml (Vocabulary.make edits) config = .ok (objects, c))
    (htags : x.validName c.eventTag = true ∧
      (c.eventContainerTag ≠ [] → x.validName c.eventContainerTag = true))
    (hnames : ∀ f ∈ fields objects c, x.validName f.fieldName = true)
    (hes : ∀ e ∈ es, Writable (fields objects c) e ∧ HasText (fields objects c) e)
    (hconv : ConvertsBack conv) (hempty : x.RejectsEmpty)
    (hlibxml : (document objects c es).Valid x → x.RoundTrips (document objects c es)) :
    ∃ out, writeAll x print objects c es = some out ∧
      (Restorable objects c es → Restores x conv objects c es out) ∧
      (Apart c (fields objects c) → Restores x conv objects c es out →
        Restorable objects c es) := by
  have hprepared := prepared_of_setConfig hconv (Vocabulary.sound_make edits) hconfig
  refine ⟨_, writeAll_eq hes, ?_⟩
  by_cases hnil : es = []
  · subst hnil
    rw [if_pos rfl]
    have hnone : Restores x conv objects c ([] : List (Event φ δ χ θ)) [] := fun n => by
      rw [reads_nothing (Or.inr hempty), List.take_nil]
      exact List.Forall₂.nil
    exact ⟨fun _ => hnone, fun _ _ => ⟨fun h => absurd rfl h, fun _ => Nat.zero_le _,
      ⟨by simp, by simp, by simp⟩⟩⟩
  rw [if_neg hnil]
  have hlib := hlibxml (valid_document htags hnames hes)
  by_cases hfields : c.fieldMap = []
  · -- the codec is not configured
    refine ⟨fun h => absurd hfields (h.fields hnil), fun _ h => ?_⟩
    obtain ⟨e, es, rfl⟩ := List.exists_cons_of_ne_nil hnil
    have hone := h 1
    rw [reads_nothing (Or.inl hfields)] at hone
    cases hone
  have hread : c.eventContainerTag ≠ [] ∨ es.length = 1 →
      (∀ e ∈ es.dropLast, pairs (fields objects c) e = [] → Apart c (fields objects c)) →
      (Restores x conv objects c es (x.text (document objects c es)) ↔
        Separated c (fields objects c) es) := by
    intro hroot hapart
    have hparse : x.parse (x.text (document objects c es)) =
        (if c.eventContainerTag = [] then remaining objects c es
          else .element c.eventContainerTag false :: remaining objects c es, false) := by
      rw [hlib.wellFormed (by simpa [document] using hroot), nodes, remaining, closing]
      by_cases hcontainer : c.eventContainerTag = [] <;> simp [hcontainer, document]
    rw [← restored_iff hprepared.wired.nodup hnil fun e he => (hes e he).2]
    refine restores_iff fun n => ?_
    rw [reads_first hfields hparse]
    exact reads_remaining hprepared es (fun e he => (hes e he).1) hapart rfl n
  constructor
  · intro h
    have hroot : c.eventContainerTag ≠ [] ∨ es.length = 1 := by
      by_cases hcontainer : c.eventContainerTag = []
      · have hle := h.single hcontainer
        have hpos := List.length_pos_iff.2 hnil
        exact Or.inr (by omega)
      · exact Or.inl hcontainer
    exact (hread hroot fun e he hpairs => absurd hpairs (h.separated.values e he)).2 h.separated
  · intro hapart h
    by_cases hroot : c.eventContainerTag ≠ [] ∨ es.length = 1
    · refine ⟨fun _ => hfields, fun hcontainer => ?_, (hread hroot fun _ _ _ => hapart).1 h⟩
      exact (hroot.resolve_left (not_not.2 hcontainer)).le
    · -- there is an error behind the first event
      exfalso
      obtain ⟨hcontainer, hlen⟩ := not_or.1 hroot
      have hcontainer := not_not.1 hcontainer
      match es, hnil, hlen with
      | [], hnil, _ => exact hnil rfl
      | [e], _, hlen => exact hlen rfl
      | e :: e₁ :: es, _, _ =>
        obtain ⟨ks, hks, hparse⟩ := hlib.extraContent hcontainer
          (elementsOf (fields objects c) e) (elementsOf (fields objects c) e₁)
          (es.map (elementsOf (fields objects c))) rfl
        have hparse' : x.parse (x.text (document objects c (e :: e₁ :: es))) =
            (if c.eventContainerTag = [] then ks
              else .element c.eventContainerTag false :: ks, true) := by
          rw [hparse, if_pos hcontainer]
        have htwo := (h 2).length_eq
        rw [reads_first hfields hparse'] at htwo
        have hle : (reads x conv objects c 2 ⟨[], false, some (ks, true)⟩).length ≤
            ks.countP (isEnd c) := length_reads rfl 2
        have hone : ks.countP (isEnd c) ≤ 1 :=
          hks.sublist.countP_le.trans (countP_eventNodes hapart)
        rw [← htwo] at hle
        simp only [List.take_succ_cons, List.take_zero, List.length_cons, List.length_nil] at hle
        omega

/-! ### A small libxml -/

/-- The open elements, and whether the start tag of the last one is open still. -/
abbrev SmallWriter : Type := List Bytes × Bool

/-- The text in front of an element, or of a text. -/
def closeTag (w : SmallWriter) (newline : Bytes) : Bytes := if w.2 then [62] ++ newline else []

def smallWrite (w : SmallWriter) : WriterCall → SmallWriter × Bytes
  | .startDocument => (w, ascii "<?xml version=\"1.0\" encoding=\"UTF-8\"?>\n")
  | .startElement name =>
    ((name :: w.1, true), closeTag w [10] ++ List.replicate w.1.length 9 ++ [60] ++ name)
  | .writeElement name content =>
    ((w.1, false), closeTag w [10] ++ List.replicate w.1.length 9 ++ [60] ++ name ++ [62] ++
      content ++ [60, 47] ++ name ++ [62, 10])
  | .endElement =>
    ((w.1.tail, false), if w.2 then [47, 62, 10]
      else List.replicate w.1.tail.length 9 ++ [60, 47] ++ w.1.headD [] ++ [62, 10])
  | .endDocument =>
    (([], false), (w.1.map fun name => [60, 47] ++ name ++ [62, 10]).flatten)

/-- The node of a tag; a declaration is none. -/
def tagNode (tag : Bytes) : List ReaderNode :=
  if tag.head? = some 63 then []
  else if tag.head? = some 47 then [.endElement tag.tail]
  else if tag.getLast? = some 47 then [.element tag.dropLast true]
  else [.element tag false]

/-- The nodes of a text whose characters stand for themselves; white space between tags is none. -/
def smallNodes : ℕ → Bytes → List ReaderNode
  | 0, _ => []
  | fuel + 1, s =>
    let t := s.takeWhile (· ≠ 60)
    let rest := (s.dropWhile (· ≠ 60)).drop 1
    (if isBlank t then [] else [.text t]) ++
      if rest = [] then []
      else tagNode (rest.takeWhile (· ≠ 62)) ++
        smallNodes fuel ((rest.dropWhile (· ≠ 62)).drop 1)

def smallXML : LibXML SmallWriter where
  newWriter := ([], false)
  write := smallWrite
  parse s := (smallNodes s.length s, decide (s = []))
  validName name := name ≠ [] && name.all fun b => isDigit b ∨ 65 ≤ b ∧ b ≤ 90 ∨ 97 ≤ b ∧ b ≤ 122

def xmlConfig : FieldCodec.Config := { fields := [(ascii "x", ascii "a"), (ascii "y", ascii "b")] }

def xmlEdits : List Vocabulary.Edit :=
  [.addTerm { termId := ascii "a", termType := .int32 },
    .addTerm { termId := ascii "b", termType := .string }]

def xmlFields : List CodecField :=
  [⟨ascii "x", { termId := ascii "a", termRef := 1, termType := .int32 }, []⟩,
    ⟨ascii "y", { termId := ascii "b", termRef := 2, termType := .string }, []⟩]

def xmlCodec : FieldCodec :=
  { kind := .xml
    fieldMap := [(ascii "x", 0), (ascii "y", 1)]
    format := [0, 1]
    fieldPtrMap := [(1, 0), (2, 1)]
    eventTag := ascii "Event"
    eventContainerTag := ascii "Events" }

/-- An event with a number and two strings, and one that has none of the mapped terms. -/
def xmlEvents : List (Event Unit Unit Unit Unit) :=
  [[(1, .int32 (-7)), (2, .blob (ascii "p")), (2, .blob (ascii "q"))], [(3, .int32 1)]]

example : (smallXML.text (document xmlFields xmlCodec xmlEvents)) =
    ascii "<?xml version=\"1.0\" encoding=\"UTF-8\"?>\n<Events>\n\t<Event>\n\t\t<x>-7</x>\n" ++
      ascii "\t\t<y>p</y>\n\t\t<y>q</y>\n\t</Event>\n\t<Event/>\n</Events>\n" := by
  decide +kernel

lemma convertsBack_signedDecimals : ConvertsBack LogCodec.signedDecimals where
  prints := LogCodec.printsBack_signedDecimals
  toUInt32 v := by
    show (lexicalCast 4294967296 (percentD v)).map UInt32.ofNat = some v
    have hlt := v.toNat_lt
    have hv : UInt32.ofNat v.toNat = v := UInt32.ofNat_toNat
    have hsigned : v.toInt32.toInt = (v.toNat : ℤ).bmod (2 ^ 32) :=
      BitVec.toInt_eq_toNat_bmod v.toBitVec
    rw [percentD, hsigned, decimal]
    by_cases hsign : v.toNat < 2147483648
    · have hmod : ((v.toNat : ℤ)).bmod (2 ^ 32) = v.toNat := by
        rw [Int.bmod_def]
        omega
      rw [hmod, if_pos (Int.natCast_nonneg _), Int.toNat_natCast, lexicalCast_numeral hlt,
        Option.map_some, hv]
    · have hmod : ((v.toNat : ℤ)).bmod (2 ^ 32) = v.toNat - 4294967296 := by
        rw [Int.bmod_def]
        omega
      rw [hmod, if_neg (by omega), lexicalCast, readUnsigned_numeral (by omega), Option.map_some,
        Option.map_some]
      refine congrArg some ((congrArg UInt32.ofNat ?_).trans hv)
      omega
  utf8 _ _ := rfl

/-- The strings of the events. -/
lemma text_xmlEvents : ∀ e ∈ xmlEvents, ∀ f ∈ xmlFields, ∀ s, .blob s ∈ values f.term.termRef e →
    s = ascii "p" ∨ s = ascii "q" := by
  intro e he f hf s hs
  simp only [xmlEvents, xmlFields, List.mem_cons, List.not_mem_nil, or_false] at he hf
  rcases he with rfl | rfl <;> rcases hf with rfl | rfl
  · simp [values] at hs
  · simpa [values] using hs
  · simp [values] at hs
  · simp [values] at hs

lemma writable_xmlEvents :
    ∀ e ∈ xmlEvents, Writable (fields xmlFields xmlCodec) e ∧
      HasText (fields xmlFields xmlCodec) e := by
  have hchar : ∀ b : Byte, b < 128 → ValidUTF8 [b] := fun b hb =>
    ValidUTF8.of_ascii fun c hc => List.mem_singleton.1 hc ▸ hb
  have hfields : fields xmlFields xmlCodec = xmlFields := rfl
  rw [hfields]
  refine fun e he => ⟨⟨?_, fun f hf v hv => ?_⟩, fun f hf s hs => ?_⟩
  · simp only [xmlEvents, List.mem_cons, List.not_mem_nil, or_false] at he
    rcases he with rfl | rfl <;> simp [Sorted]
  · simp only [xmlEvents, xmlFields, List.mem_cons, List.not_mem_nil, or_false] at he hf
    rcases he with rfl | rfl <;> rcases hf with rfl | rfl
    · obtain rfl : v = .int32 (-7) := by simpa [values] using hv
      trivial
    · rcases (by simpa [values] using hv : v = .blob (ascii "p") ∨ v = .blob (ascii "q"))
        with rfl | rfl
      · exact hchar 112 (by decide)
      · exact hchar 113 (by decide)
    · simp [values] at hv
    · simp [values] at hv
  · rcases text_xmlEvents e he f hf s hs with rfl | rfl <;> exact ⟨by decide, by decide +kernel⟩

/-- The events are restored, as the one without values is the last one; the other way round, they
are not. -/
theorem xml_round_trip_small :
    (∃ out, writeAll smallXML LogCodec.noPrinters xmlFields xmlCodec xmlEvents = some out ∧
      Restores smallXML LogCodec.signedDecimals xmlFields xmlCodec xmlEvents out) ∧
    ∃ out, writeAll smallXML LogCodec.noPrinters xmlFields xmlCodec xmlEvents.reverse = some out ∧
      ¬ Restores smallXML LogCodec.signedDecimals xmlFields xmlCodec xmlEvents.reverse out := by
  have hconfig : setConfig .xml (Vocabulary.make xmlEdits) xmlConfig =
      .ok (xmlFields, xmlCodec) := by
    decide +kernel
  have htags : smallXML.validName xmlCodec.eventTag = true ∧
      (xmlCodec.eventContainerTag ≠ [] →
        smallXML.validName xmlCodec.eventContainerTag = true) := by
    decide +kernel
  have hnames : ∀ f ∈ fields xmlFields xmlCodec, smallXML.validName f.fieldName = true := by
    decide +kernel
  have hcontainer : xmlCodec.eventContainerTag ≠ [] := by decide +kernel
  have hfirst : pairs (fields xmlFields xmlCodec) xmlEvents[0] ≠ [] := by
    simp [pairs, fields, xmlFields, xmlCodec, xmlEvents, values]
  have hlast : pairs (fields xmlFields xmlCodec) xmlEvents[1] = [] := by
    simp [pairs, fields, xmlFields, xmlCodec, xmlEvents, values]
  have hroot : smallXML.validName xmlCodec.eventTag = true := htags.1
  constructor
  · obtain ⟨out, hout, hrestores, -⟩ := xml_round_trip smallXML LogCodec.noPrinters
      LogCodec.signedDecimals hconfig htags hnames writable_xmlEvents
      convertsBack_signedDecimals rfl
      fun _ => ⟨fun _ => by decide +kernel, fun h => absurd h hcontainer⟩
    refine ⟨out, hout, hrestores ⟨fun _ => by decide, fun h => absurd h hcontainer, ?_, ?_, ?_⟩⟩
    · intro e he
      obtain rfl : e = xmlEvents[0] := List.mem_singleton.1 he
      exact hfirst
    · intro e he
      obtain rfl : xmlEvents[1] = e := Option.some.inj he
      exact ⟨fun _ => hcontainer, fun h => absurd hlast h⟩
    · intro e he f hf s hs
      rcases text_xmlEvents e he f hf s hs with rfl | rfl <;> decide +kernel
  · obtain ⟨out, hout, -, hrestorable⟩ := xml_round_trip smallXML LogCodec.noPrinters
      LogCodec.signedDecimals hconfig htags hnames
      (fun e he => writable_xmlEvents e (List.mem_reverse.1 he)) convertsBack_signedDecimals rfl
      fun _ => ⟨fun _ => by decide +kernel, fun h => absurd h hcontainer⟩
    refine ⟨out, hout, fun h => ?_⟩
    have hapart : Apart xmlCodec (fields xmlFields xmlCodec) := by
      intro f hf
      have hmem : f ∈ xmlFields := hf
      simp only [xmlFields, List.mem_cons, List.not_mem_nil, or_false] at hmem
      rcases hmem with rfl | rfl <;> exact ⟨by decide +kernel, fun _ => by decide +kernel⟩
    exact (hrestorable hapart h).separated.values xmlEvents[1] List.mem_cons_self hlast

/-- An event without values in front of an event with values: one event is read, instead of two. -/
theorem xml_not_restored :
    let es := xmlEvents.reverse
    let out := ascii "<?xml version=\"1.0\" encoding=\"UTF-8\"?>\n<Events>\n\t<Event/>\n" ++
      ascii "\t<Event>\n\t\t<x>-7</x>\n\t\t<y>p</y>\n\t\t<y>q</y>\n\t</Event>\n</Events>\n"
    setConfig .xml (Vocabulary.make xmlEdits) xmlConfig = .ok (xmlFields, xmlCodec) ∧
      (∀ e ∈ es, Writable (fields xmlFields xmlCodec) e ∧ HasText (fields xmlFields xmlCodec) e) ∧
      (document xmlFields xmlCodec es).Valid smallXML ∧
      smallXML.RoundTrips (document xmlFields xmlCodec es) ∧
      writeAll smallXML LogCodec.noPrinters xmlFields xmlCodec es = some out ∧
      (reads smallXML LogCodec.signedDecimals xmlFields xmlCodec 2 { stream := out }).length = 1 ∧
      ¬ Restores smallXML LogCodec.signedDecimals xmlFields xmlCodec es out := by
  intro es out
  have hes : ∀ e ∈ es, Writable (fields xmlFields xmlCodec) e ∧
      HasText (fields xmlFields xmlCodec) e :=
    fun e he => writable_xmlEvents e (List.mem_reverse.1 he)
  have hlength : (reads smallXML LogCodec.signedDecimals xmlFields xmlCodec 2
      { stream := out }).length = 1 := by
    decide +kernel
  have hcontainer : xmlCodec.eventContainerTag ≠ [] := by decide +kernel
  refine ⟨by decide +kernel, hes, ?_, ⟨fun _ => by decide +kernel, fun h => absurd h hcontainer⟩,
    by decide +kernel, hlength, fun h => ?_⟩
  · exact valid_document (by decide +kernel) (by decide +kernel) hes
  · have htwo := (h 2).length_eq
    rw [hlength] at htwo
    cases htwo

end XMLCodec

end PionCore.Platform
