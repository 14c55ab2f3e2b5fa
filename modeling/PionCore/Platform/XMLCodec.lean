/-
# The XML codec

`XMLCodec::write` drives the writer of libxml: an element for each event, with an element for each
value of a mapped term, and an element around all of them.  `XMLCodec::read` walks over the nodes
that the reader of libxml finds, and takes what is between the tags of an event.  An event without
values is written as an element that is empty, for which the reader has no end tag, so that it goes
on in the next event (`xml_round_trip`).

libxml is a parameter, with the callback that hands it the stream.  The event that is read into has
the type of the codec.
-/
import PionCore.Lib.XMLText
import PionCore.Platform.JSONRoundTrip

namespace PionCore.Platform

open PionCore.Lib

/-! ### libxml -/

/-- The calls of the writer; a formatted element is written like others. -/
inductive WriterCall where
  | startDocument
  | startElement (name : Bytes)
  | writeElement (name content : Bytes)
  | endElement
  | endDocument
deriving DecidableEq

/-- The nodes that the reader comes to: those of type 1, 15, 3 and 4, and all others. -/
inductive ReaderNode where
  | element (name : Bytes) (isEmpty : Bool)
  | endElement (name : Bytes)
  | text (s : Bytes)
  | cdata (s : Bytes)
  | other
deriving DecidableEq

/-- The writer, which appends to its buffer, and the reader of a text: its nodes, and whether there
is an error behind them. -/
structure LibXML (ω : Type*) where
  newWriter : ω
  write : ω → WriterCall → ω × Bytes
  parse : Bytes → List ReaderNode × Bool
  validName : Bytes → Bool

/-- The elements of the events, each with its elements, and the tags around them. -/
structure EventsDocument where
  containerTag : Bytes
  eventTag : Bytes
  events : List (List (Bytes × Bytes))
deriving DecidableEq

def isBlank (s : Bytes) : Bool := s.all fun b => b = 32 ∨ b = 9 ∨ b = 10 ∨ b = 13

/-- A text that is blank is a node of type 13 or 14. -/
def textNode (s : Bytes) : ReaderNode := if isBlank s then .other else .text s

namespace EventsDocument

def elementCalls (tag : Bytes) (o : List (Bytes × Bytes)) : List WriterCall :=
  .startElement tag :: o.map (fun p => .writeElement p.1 p.2) ++ [.endElement]

/-- The calls that open a document. -/
def openCalls (containerTag : Bytes) : List WriterCall :=
  .startDocument :: if containerTag = [] then [] else [.startElement containerTag]

def calls (d : EventsDocument) : List WriterCall :=
  openCalls d.containerTag ++ d.events.flatMap (elementCalls d.eventTag) ++ [.endDocument]

def valueNodes (p : Bytes × Bytes) : List ReaderNode :=
  [.element p.1 false, textNode p.2, .endElement p.1]

/-- The nodes of an event; an element without content has no end. -/
def eventNodes (tag : Bytes) (o : List (Bytes × Bytes)) : List ReaderNode :=
  if o = [] then [.element tag true]
  else .element tag false :: o.flatMap valueNodes ++ [.endElement tag]

/-- The nodes of a document; the reader drops the white space between the tags. -/
def nodes (d : EventsDocument) : List ReaderNode :=
  if d.containerTag = [] then d.events.flatMap (eventNodes d.eventTag)
  else
    .element d.containerTag false :: d.events.flatMap (eventNodes d.eventTag) ++
      [.endElement d.containerTag]

/-- The names are names, and the texts are not empty and have characters of XML only. -/
def Valid {ω : Type*} (x : LibXML ω) (d : EventsDocument) : Prop :=
  (d.containerTag ≠ [] → x.validName d.containerTag = true) ∧ x.validName d.eventTag = true ∧
    ∀ o ∈ d.events, ∀ p ∈ o, x.validName p.1 = true ∧ p.2 ≠ [] ∧ isXMLText p.2 = true

end EventsDocument

namespace LibXML

variable {ω : Type*} (x : LibXML ω)

/-- Some calls of the writer with its buffer. -/
def generate (g : ω × Bytes) (calls : List WriterCall) : ω × Bytes :=
  calls.foldl (fun g call => ((x.write g.1 call).1, g.2 ++ (x.write g.1 call).2)) g

def text (d : EventsDocument) : Bytes := (x.generate (x.newWriter, []) d.calls).2

/-- What the codec relies on, for one document with events: the reader finds the nodes that have
been written, if there is one root; with more roots, there is an error, at the latest behind the
first one. -/
structure RoundTrips (d : EventsDocument) : Prop where
  wellFormed : d.containerTag ≠ [] ∨ d.events.length = 1 → x.parse (x.text d) = (d.nodes, false)
  extraContent : d.containerTag = [] → ∀ o o' rest, d.events = o :: o' :: rest →
    ∃ ks, ks <+: EventsDocument.eventNodes d.eventTag o ∧ x.parse (x.text d) = (ks, true)

/-- A text that is empty has no nodes. -/
def RejectsEmpty : Prop := x.parse [] = ([], true)

end LibXML

/-! ### The writer -/

namespace XMLCodec

open FieldCodec SortedMultimap

variable {ω φ δ χ θ : Type*} (x : LibXML ω)

/-- `m_no_events_written`, and the writer. -/
structure Writer (ω : Type*) where
  noEventsWritten : Bool := true
  writer : Option ω := none

/-- `%d` takes the bits of an unsigned number for those of a signed one. -/
def percentD (v : UInt32) : Bytes := decimal v.toInt32.toInt

variable (print : LogPrinters φ δ χ θ)

/-- The content of the element for a value, if there is one; another kind of value throws. -/
def valueContent (f : CodecField) (value : ParameterValue φ δ χ θ) : Option (Option Bytes) :=
  match f.term.termType, value with
  | .null, _ | .object, _ => some none
  | .int8, .int32 v | .int16, .int32 v | .int32, .int32 v => some (some (decimal v.toInt))
  | .int64, .int64 v => some (some (decimal v.toInt))
  | .uint8, .uint32 v | .uint16, .uint32 v | .uint32, .uint32 v => some (some (percentD v))
  | .uint64, .uint64 v => some (some (numeral 10 v.toNat))
  | .float, .float v => some (some (print.ofFloat v))
  | .double, .double v => some (some (print.ofDouble v))
  | .longDouble, .longDouble v => some (some (print.ofLongDouble v))
  | .shortString, .blob v | .string, .blob v | .longString, .blob v | .blob, .blob v
  | .zblob, .blob v => some (some (LogCodec.cString v))
  | .char, .blob v => some (some (LogCodec.cString (v.take f.term.termSize)))
  | .dateTime, .dateTime v | .date, .dateTime v | .time, .dateTime v =>
    some (some (print.ofDateTime f.timeFacet v))
  | _, _ => none

/-- The loop of `write` over the values of a field. -/
def valuesCalls (f : CodecField) : List (ℕ × ParameterValue φ δ χ θ) → Option (List WriterCall)
  | [] => some []
  | p :: rest =>
    (valueContent print f p.2).bind fun content =>
      (valuesCalls f rest).map fun more =>
        (content.map (WriterCall.writeElement f.fieldName)).toList ++ more

/-- The loop of `write` over the fields of the format. -/
def fieldsCalls (e : Event φ δ χ θ) : List CodecField → Option (List WriterCall)
  | [] => some []
  | f :: fs =>
    (valuesCalls print f (range (lowerBound f.term.termRef e) (upperBound f.term.termRef e) e)).bind
      fun calls => (fieldsCalls e fs).map fun more => calls ++ more

/-- The writer that `write` uses, with what is in its buffer; the first event opens the document. -/
def opened (containerTag : Bytes) (w : Writer ω) : Option (ω × Bytes) :=
  if w.noEventsWritten then
    some (x.generate (x.newWriter, []) (EventsDocument.openCalls containerTag))
  else w.writer.map fun g => (g, [])

/-- `write`: the writer behind the call, and what is written.  After `finish` there is no writer. -/
def write (objects : List CodecField) (c : FieldCodec) (w : Writer ω) (e : Event φ δ χ θ) :
    Option (Writer ω × Bytes) :=
  (opened x c.eventContainerTag w).bind fun g =>
    (fieldsCalls print e (fields objects c)).map fun calls =>
      let g' := x.generate g (.startElement c.eventTag :: calls ++ [.endElement])
      (⟨false, some g'.1⟩, g'.2)

/-- `finish`, which throws if it is called again. -/
def finish (w : Writer ω) : Option (Writer ω × Bytes) :=
  if w.noEventsWritten then some (w, [])
  else w.writer.map fun g => (⟨false, none⟩, (x.generate (g, []) [.endDocument]).2)

/-- Some events are written. -/
def writeEvents (objects : List CodecField) (c : FieldCodec) (w : Writer ω) :
    List (Event φ δ χ θ) → Option (Writer ω × Bytes)
  | [] => some (w, [])
  | e :: es =>
    (write x print objects c w e).bind fun p =>
      (writeEvents objects c p.1 es).map fun q => (q.1, p.2 ++ q.2)

/-- A new codec writes some events, and finishes. -/
def writeAll (objects : List CodecField) (c : FieldCodec) (es : List (Event φ δ χ θ)) :
    Option Bytes :=
  (writeEvents x print objects c {} es).bind fun p => (finish x p.1).map fun q => p.2 ++ q.2

/-! ### The reader -/

/-- What a call of `read` does: an event, no event, an exception. -/
inductive ReadResult (φ δ χ θ : Type*) where
  | event (e : Event φ δ χ θ)
  | none
  | threw

/-- The stream with its end, and the nodes in front of the reader, which the first call opens. -/
structure State where
  stream : Bytes
  eof : Bool := false
  reader : Option (List ReaderNode × Bool) := none

/-- The nodes behind the start of an element. -/
def skipTo (tag : Bytes) : List ReaderNode → Option (List ReaderNode)
  | [] => none
  | .element name _ :: ks => if name = tag then some ks else skipTo tag ks
  | _ :: ks => skipTo tag ks

/-- Where the loop that looks for an event ends, with the nodes behind. -/
inductive Found where
  | start (ks : List ReaderNode)
  | emptyEvent (ks : List ReaderNode)
  | containerEnd (ks : List ReaderNode)
  | noNode
deriving DecidableEq

/-- The start of the next event, or the end of the events. -/
def findEvent (c : FieldCodec) : List ReaderNode → Found
  | [] => .noNode
  | .element name _ :: ks => if name = c.eventTag then .start ks else findEvent c ks
  | .endElement name :: ks =>
    if name = c.eventTag then .emptyEvent ks
    else if c.eventContainerTag ≠ [] ∧ name = c.eventContainerTag then .containerEnd ks
    else findEvent c ks
  | _ :: ks => findEvent c ks

/-- The loop over an event: outside of fields, with the element that is ignored, or in the content
of a field. -/
inductive Mode where
  | outside (openElementName : Bytes)
  | field (f : CodecField) (openElementName value : Bytes)

variable (conv : LogConversions φ δ χ θ)

/-- The value of a field is set; the facet of a time is found by the reference of its term. -/
def setValue (objects : List CodecField) (c : FieldCodec) (f : CodecField) (e : Event φ δ χ θ)
    (value : Bytes) : Option (Event φ δ χ θ) :=
  match f.term.termType with
  | .dateTime | .date | .time =>
    (JSONCodec.fieldOfRef objects c f.term.termRef).bind fun g =>
      (conv.toDateTime g.timeFacet value).bind fun dt => e.setDateTime f.term.termRef dt
  | _ => JSONCodec.setValue conv f e f.term.termRef value

/-- The loops over the nodes of an event and of a field: the event, the nodes behind, and whether
the end of the events has been found; `none` if it throws. -/
def readFields (objects : List CodecField) (c : FieldCodec) :
    Event φ δ χ θ → Mode → List ReaderNode → Option (Event φ δ χ θ × List ReaderNode × Bool)
  | _, _, [] => none
  | e, .outside openName, .endElement name :: ks =>
    if name = c.eventTag then some (e, ks, false)
    else if c.eventContainerTag ≠ [] ∧ name = c.eventContainerTag then some (e, ks, true)
    else readFields objects c e (.outside (if name = openName then [] else openName)) ks
  | e, .outside openName, .element name isEmpty :: ks =>
    if openName ≠ [] then readFields objects c e (.outside openName) ks
    else if isEmpty then readFields objects c e (.outside openName) ks
    else
      match JSONCodec.fieldOfName objects c name with
      | none => readFields objects c e (.outside name) ks
      | some f => readFields objects c e (.field f name []) ks
  | e, .outside openName, _ :: ks => readFields objects c e (.outside openName) ks
  | e, .field f openName value, .element name _ :: ks =>
    readFields objects c e (.field f openName (value ++ [60] ++ name ++ [62])) ks
  | e, .field f openName value, .endElement name :: ks =>
    if name = openName then
      match setValue conv objects c f e value with
      | none => none
      | some e' => readFields objects c e' (.outside []) ks
    else readFields objects c e (.field f openName (value ++ [60, 47] ++ name ++ [62])) ks
  | e, .field f openName value, .text s :: ks
  | e, .field f openName value, .cdata s :: ks =>
    readFields objects c e (.field f openName (value ++ s)) ks
  | e, .field f openName value, .other :: ks =>
    readFields objects c e (.field f openName value) ks

/-- There are no more nodes. -/
def ended (broken : Bool) : ReadResult φ δ χ θ := if broken then .threw else .none

/-- `read` behind the first start tag: the result, and the state behind the call; the nodes behind
an exception are left open. -/
def readEvent (objects : List CodecField) (c : FieldCodec) (s : State) (ks : List ReaderNode)
    (broken : Bool) : ReadResult φ δ χ θ × State :=
  match findEvent c ks with
  | .noNode =>
    (ended broken, { s with
      eof := s.eof || ! broken && decide (c.eventContainerTag = [])
      reader := some ([], broken) })
  | .emptyEvent ks => (.event [], { s with reader := some (ks, broken) })
  | .containerEnd ks => (.none, { s with eof := true, reader := some (ks, broken) })
  | .start ks =>
    match readFields conv objects c [] (.outside []) ks with
    | none => (.threw, { s with reader := some ([], true) })
    | some (e, ks, eof) => (.event e, { s with eof := s.eof || eof, reader := some (ks, broken) })

/-- `read`: the first call opens the reader, and looks for the tag around the events. -/
def read (objects : List CodecField) (c : FieldCodec) (s : State) : ReadResult φ δ χ θ × State :=
  match s.reader with
  | some (ks, broken) => readEvent conv objects c s ks broken
  | none =>
    if c.fieldMap = [] then (.threw, s)
    else
      let p := x.parse s.stream
      let s := { s with stream := [] }
      if c.eventContainerTag = [] then readEvent conv objects c s p.1 p.2
      else
        match skipTo c.eventContainerTag p.1 with
        | none => (ended p.2, s)
        | some ks => readEvent conv objects c s ks p.2

/-- The events of some calls of `read`, up to the first one that does not return an event. -/
def reads (objects : List CodecField) (c : FieldCodec) : ℕ → State → List (Event φ δ χ θ)
  | 0, _ => []
  | n + 1, s =>
    match read x conv objects c s with
    | (.event e, s') => e :: reads objects c n s'
    | _ => []

end XMLCodec

end PionCore.Platform
