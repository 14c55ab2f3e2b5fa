/-
# The JSON codec

`JSONCodec::write` drives the generator of yajl: the events are the maps of an array, and the values
of a mapped term follow each other under the name of its field.  `JSONCodec::read` hands the
characters of a stream to the parser of yajl, in blocks of a fixed size, and queues the maps that
are completed on the way.  The events that are written come back in their order
(`json_round_trip`), whatever has arrived when the calls are made.

yajl is a parameter.  A map is kept in a hash table, whose order is a parameter as well.  The event
that is read into has the type of the codec.
-/
import PionCore.Lib.UTF8
import PionCore.Platform.FieldCodec
import PionCore.Platform.LogWriter

namespace PionCore.Platform

open PionCore.Lib

/-! ### yajl -/

/-- The calls of the generator. -/
inductive GenCall (φ : Type*) where
  | arrayOpen
  | mapOpen
  | string (s : Bytes)
  | integer (number : ℤ)
  | double (number : φ)
  | mapClose
  | arrayClose

/-- The calls of the handlers. -/
inductive Callback where
  | number (text : Bytes)
  | string (s : Bytes)
  | startMap
  | mapKey (s : Bytes)
  | endMap
  | startArray
  | endArray
deriving DecidableEq

inductive YajlStatus where
  | ok
  | insufficientData
  | error
deriving DecidableEq

/-- The generator, which appends to its buffer, and the parser, which makes some calls of the
handlers for a block of text. -/
structure Yajl (γ π φ : Type*) where
  genAlloc : γ
  gen : γ → GenCall φ → γ × Bytes
  alloc : π
  parse : π → Bytes → π × List Callback × YajlStatus

/-- The value of a key. -/
inductive JSONValue where
  | number (n : ℤ)
  | text (s : Bytes)
deriving DecidableEq

/-- An array of maps. -/
abbrev JSONDocument : Type := List (List (Bytes × JSONValue))

namespace JSONDocument

variable {φ : Type*}

def valueCall : JSONValue → GenCall φ
  | .number n => .integer n
  | .text s => .string s

def mapCalls (o : List (Bytes × JSONValue)) : List (GenCall φ) :=
  o.flatMap fun e => [.string e.1, valueCall e.2]

/-- The calls that generate a document. -/
def calls (d : JSONDocument) : List (GenCall φ) :=
  .arrayOpen :: (d.flatMap fun o => .mapOpen :: mapCalls o ++ [.mapClose]) ++ [.arrayClose]

def valueCallback : JSONValue → Callback
  | .number n => .number (decimal n)
  | .text s => .string s

def mapCallbacks (o : List (Bytes × JSONValue)) : List Callback :=
  .startMap :: (o.flatMap fun e => [.mapKey e.1, valueCallback e.2]) ++ [.endMap]

/-- The callbacks of a document before its end. -/
def opening (d : JSONDocument) : List Callback := .startArray :: d.flatMap mapCallbacks

/-- The calls of the handlers, in the order of the document. -/
def callbacks (d : JSONDocument) : List Callback := opening d ++ [.endArray]

/-- All texts are valid. -/
def Valid (d : JSONDocument) : Prop :=
  ∀ o ∈ d, ∀ e ∈ o, ValidUTF8 e.1 ∧ ∀ s, e.2 = .text s → ValidUTF8 s

end JSONDocument

namespace Yajl

variable {γ π φ : Type*} (y : Yajl γ π φ)

/-- Some calls of the generator with its buffer. -/
def generate (g : γ × Bytes) (calls : List (GenCall φ)) : γ × Bytes :=
  calls.foldl (fun g call => ((y.gen g.1 call).1, g.2 ++ (y.gen g.1 call).2)) g

/-- The text of a document. -/
def text (d : JSONDocument) : Bytes := (y.generate (y.genAlloc, []) d.calls).2

/-- The blocks of a text are handed to the parser: its state, and the calls of the handlers. -/
def feed (blocks : List Bytes) : π × List Callback :=
  blocks.foldl (fun p b => ((y.parse p.1 b).1, p.2 ++ (y.parse p.1 b).2.1)) (y.alloc, [])

/-- What the codec relies on, for one document: its text is a JSON array in UTF-8, and the parser
calls the handlers in the order of the document, however the text is cut into blocks.  The array
starts with the first character, and the parser is done when it has ended. -/
structure RoundTrips (d : JSONDocument) : Prop where
  array : (y.text d).head? = some 91
  utf8 : ValidUTF8 (y.text d)
  order : ∀ blocks : List Bytes, blocks.flatten <+: y.text d → (y.feed blocks).2 <+: d.callbacks
  starts : ∀ blocks : List Bytes, blocks.flatten <+: y.text d → blocks.flatten ≠ [] →
    (y.feed blocks).2 ≠ []
  complete : ∀ blocks : List Bytes, blocks.flatten = y.text d → (y.feed blocks).2 = d.callbacks
  status : ∀ (blocks : List Bytes) (block : Bytes), (blocks ++ [block]).flatten <+: y.text d →
    (y.parse (y.feed blocks).1 block).2.2 =
      if (y.feed (blocks ++ [block])).2 = d.callbacks then .ok else .insufficientData

end Yajl

/-! ### The writer -/

namespace JSONCodec

open FieldCodec SortedMultimap

variable {γ π φ δ χ θ : Type*} (y : Yajl γ π φ)

/-- `m_no_events_written`, and the generator with its buffer. -/
structure Writer (γ : Type*) where
  noEventsWritten : Bool := true
  generator : Option (γ × Bytes) := none

variable (print : LogPrinters φ δ χ θ)

/-- The calls for a value; another kind of value throws. -/
def valueCalls (f : CodecField) (value : ParameterValue φ δ χ θ) : Option (List (GenCall φ)) :=
  match f.term.termType, value with
  | .null, _ | .object, _ => some []
  | .int8, .int32 v | .int16, .int32 v | .int32, .int32 v => some [.integer v.toInt]
  | .int64, .int64 v => some [.string (decimal v.toInt)]
  | .uint8, .uint32 v | .uint16, .uint32 v | .uint32, .uint32 v => some [.integer v.toNat]
  | .uint64, .uint64 v => some [.string (numeral 10 v.toNat)]
  | .float, .float v => some [.double v]
  | .double, .double v => some [.string (print.ofDouble v)]
  | .longDouble, .longDouble v => some [.string (print.ofLongDouble v)]
  | .shortString, .blob v | .string, .blob v | .longString, .blob v | .blob, .blob v
  | .zblob, .blob v => some [.string v]
  | .char, .blob v => some [.string (v.take f.term.termSize)]
  | .dateTime, .dateTime v | .date, .dateTime v | .time, .dateTime v =>
    some [.string (print.ofDateTime f.timeFacet v)]
  | _, _ => none

/-- The loop of `write` over the values of a field. -/
def valuesCalls (f : CodecField) : List (ℕ × ParameterValue φ δ χ θ) → Option (List (GenCall φ))
  | [] => some []
  | p :: rest =>
    (valueCalls print f p.2).bind fun calls =>
      (valuesCalls f rest).map fun more => .string f.fieldName :: (calls ++ more)

/-- The loop of `write` over the fields of the format. -/
def fieldsCalls (e : Event φ δ χ θ) : List CodecField → Option (List (GenCall φ))
  | [] => some []
  | f :: fs =>
    (valuesCalls print f (range (lowerBound f.term.termRef e) (upperBound f.term.termRef e) e)).bind
      fun calls => (fieldsCalls e fs).map fun more => calls ++ more

/-- The generator that `write` uses; the first event opens the array. -/
def opened (w : Writer γ) : Option (γ × Bytes) :=
  if w.noEventsWritten then some (y.generate (y.genAlloc, []) [.arrayOpen]) else w.generator

/-- `write`: the writer behind the call, and what is written.  After `finish` there is no
generator. -/
def write (fs : List CodecField) (w : Writer γ) (e : Event φ δ χ θ) : Option (Writer γ × Bytes) :=
  (opened y w).bind fun g =>
    (fieldsCalls print e fs).map fun calls =>
      let g' := y.generate g (.mapOpen :: calls ++ [.mapClose])
      (⟨false, some (g'.1, [])⟩, g'.2)

/-- `finish` -/
def finish (w : Writer γ) : Writer γ × Bytes :=
  if w.noEventsWritten then (w, [])
  else
    match w.generator with
    | none => (w, [])
    | some g => (⟨false, none⟩, (y.generate g [.arrayClose]).2)

/-- Some events are written. -/
def writeEvents (fs : List CodecField) (w : Writer γ) :
    List (Event φ δ χ θ) → Option (Writer γ × Bytes)
  | [] => some (w, [])
  | e :: es =>
    (write y print fs w e).bind fun p =>
      (writeEvents fs p.1 es).map fun q => (q.1, p.2 ++ q.2)

/-- A new codec writes some events, and finishes. -/
def writeAll (fs : List CodecField) (es : List (Event φ δ χ θ)) : Option Bytes :=
  (writeEvents y print fs {} es).map fun p => p.2 ++ (finish y p.1).2

/-! ### The reader -/

/-- `Context`, and the queue that it refers to. -/
structure Context where
  arrayStarted : Bool := false
  arrayEnded : Bool := false
  object : Option (List (ℕ × Bytes)) := none
  termRef : Option ℕ := none
  queue : List (List (ℕ × Bytes)) := []
deriving DecidableEq

/-- The parser with its context, which are made by the first call of `read`. -/
structure Reader (π : Type*) where
  handle : Option π := none
  context : Context := {}

/-- A field by its name. -/
def fieldOfName (objects : List CodecField) (c : FieldCodec) (name : Bytes) : Option CodecField :=
  (c.findField name).bind fun e => objects[e.2]?

/-- `m_JSON_field_ptr_map[term_ref]` -/
def fieldOfRef (objects : List CodecField) (c : FieldCodec) (ref : ℕ) : Option CodecField :=
  ((c.fieldPtrMap.find? fun e => e.1 == ref).map Prod.snd).bind fun a => objects[a]?

/-- The handlers; `none` is undefined behaviour. -/
def handler (objects : List CodecField) (c : FieldCodec) (k : Context) : Callback → Option Context
  | .number s | .string s =>
    k.object.bind fun o => k.termRef.map fun ref => { k with object := some (o ++ [(ref, s)]) }
  | .mapKey s =>
    (fieldOfName objects c s).map fun f => { k with termRef := some f.term.termRef }
  | .startMap => some { k with object := some [] }
  | .endMap => k.object.map fun o => { k with queue := k.queue ++ [o] }
  | .startArray => some { k with arrayStarted := true }
  | .endArray => some { k with arrayEnded := true }

/-- `READ_BUFFER_SIZE` -/
def readBufferSize : ℕ := 4096

/-- A block of the stream, and the stream behind it.  A character is compared with the end of file
as it is, so that the character of ones only, which is consumed, is an end as well. -/
def readBlock : ℕ → Bytes → Bytes × Bytes
  | 0, s => ([], s)
  | _ + 1, [] => ([], [])
  | n + 1, b :: s =>
    if b = 255 then ([], s) else (b :: (readBlock n s).1, (readBlock n s).2)

/-- What a call of `read` does: an event, no event yet, the end of the array, an exception. -/
inductive ReadResult (φ δ χ θ : Type*) where
  | event (e : Event φ δ χ θ)
  | none
  | eof
  | threw

/-- How the loop of `read` ends. -/
inductive Filled where
  | queued
  | none
  | eof
deriving DecidableEq

/-- The loop of `read`.  Each turn takes a character, so that the length of the stream bounds
them. -/
def fillQueue (objects : List CodecField) (c : FieldCodec) :
    ℕ → π → Context → Bytes → Option (Filled × π × Context × Bytes)
  | 0, h, k, s => some (.none, h, k, s)
  | fuel + 1, h, k, s =>
    if k.queue ≠ [] then some (.queued, h, k, s)
    else if k.arrayEnded then some (.eof, h, k, s)
    else if (readBlock readBufferSize s).1 = [] then
      some (.none, h, k, (readBlock readBufferSize s).2)
    else
      ((y.parse h (readBlock readBufferSize s).1).2.1.foldlM (handler objects c) k).bind fun k' =>
        if (y.parse h (readBlock readBufferSize s).1).2.2 = .error then
          some (.none, (y.parse h (readBlock readBufferSize s).1).1, k',
            (readBlock readBufferSize s).2)
        else
          fillQueue objects c fuel (y.parse h (readBlock readBufferSize s).1).1 k'
            (readBlock readBufferSize s).2

variable (conv : LogConversions φ δ χ θ)

/-- A value of an object is set; a conversion may throw. -/
def setValue (f : CodecField) (e : Event φ δ χ θ) (ref : ℕ) (value : Bytes) :
    Option (Event φ δ χ θ) :=
  match f.term.termType with
  | .null | .object => some e
  | .int8 | .int16 | .int32 => e.setX ref ((conv.toInt32 value).map .int32)
  | .int64 => e.setX ref ((conv.toInt64 value).map .int64)
  | .uint8 | .uint16 | .uint32 => e.setX ref ((conv.toUInt32 value).map .uint32)
  | .uint64 => e.setX ref ((conv.toUInt64 value).map .uint64)
  | .float => e.setX ref ((conv.toFloat value).map .float)
  | .double => e.setX ref ((conv.toDouble value).map .double)
  | .longDouble => e.setX ref ((conv.toLongDouble value).map .longDouble)
  | .shortString | .string | .longString => e.setString conv.toConversions ref value
  | .blob | .zblob => e.setBlob ref value
  | .char => e.setString conv.toConversions ref (value.take f.term.termSize)
  | .dateTime | .date | .time =>
    (conv.toDateTime f.timeFacet value).bind fun dt => e.setDateTime ref dt

/-- The loop of `read` over an object: `none` is undefined behaviour. -/
def setValues (objects : List CodecField) (c : FieldCodec) (e : Event φ δ χ θ) :
    List (ℕ × Bytes) → Option (ReadResult φ δ χ θ)
  | [] => some (.event e)
  | (ref, value) :: rest =>
    (fieldOfRef objects c ref).bind fun f =>
      match setValue conv f e ref value with
      | none => some .threw
      | some e' => setValues objects c e' rest

/-- White space before the array. -/
def isWhitespace (b : Byte) : Bool := b = 32 ∨ b = 9 ∨ b = 10 ∨ b = 13

variable (order : List (ℕ × Bytes) → List (ℕ × Bytes))

/-- The second half of `read`: the loop, and the next object of the queue. -/
def nextEvent (objects : List CodecField) (c : FieldCodec) (h : π) (k : Context) (s : Bytes) :
    Option (ReadResult φ δ χ θ × Reader π × Bytes) :=
  (fillQueue y objects c (s.length + 1) h k s).bind fun q =>
    match q with
    | (.none, h, k, s) => some (.none, ⟨some h, k⟩, s)
    | (.eof, h, k, s) => some (.eof, ⟨some h, k⟩, s)
    | (.queued, h, k, s) =>
      (setValues conv objects c [] (order (k.queue.headD []))).map fun r =>
        (r, ⟨some h, { k with queue := k.queue.tail }⟩, s)

/-- `read`: the result, and the reader and the stream behind the call; `none` is undefined
behaviour. -/
def read (objects : List CodecField) (c : FieldCodec) (r : Reader π) (s : Bytes) :
    Option (ReadResult φ δ χ θ × Reader π × Bytes) :=
  let h := r.handle.getD y.alloc
  if r.context.arrayStarted then nextEvent y conv order objects c h r.context s
  else
    match s.dropWhile isWhitespace with
    | [] => some (.none, ⟨some h, r.context⟩, [])
    | b :: s =>
      if b = 91 then nextEvent y conv order objects c h r.context (b :: s)
      else some (.threw, ⟨some h, r.context⟩, b :: s)

/-! ### Calls -/

/-- Some characters arrive in the stream, or `read` is called. -/
inductive Call where
  | arrive (s : Bytes)
  | read
deriving DecidableEq

/-- The reader, its stream, and the results of the calls of `read`. -/
structure State (π φ δ χ θ : Type*) where
  reader : Reader π := {}
  stream : Bytes := []
  results : List (ReadResult φ δ χ θ) := []

def step (objects : List CodecField) (c : FieldCodec) (s : State π φ δ χ θ) :
    Call → Option (State π φ δ χ θ)
  | .arrive t => some { s with stream := s.stream ++ t }
  | .read =>
    (read y conv order objects c s.reader s.stream).map fun p =>
      ⟨p.2.1, p.2.2, s.results ++ [p.1]⟩

/-- The characters that arrive. -/
def arrived : List Call → Bytes
  | [] => []
  | .arrive s :: rest => s ++ arrived rest
  | .read :: rest => arrived rest

/-- The events that were read. -/
def events (results : List (ReadResult φ δ χ θ)) : List (Event φ δ χ θ) :=
  results.filterMap fun
    | .event e => some e
    | _ => none

end JSONCodec

end PionCore.Platform
