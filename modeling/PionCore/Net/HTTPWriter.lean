/-
# The HTTP writer

`HTTPWriter`: payload content is collected in buffers and sent, in one piece or chunk by
chunk.  A buffer is the bytes that it refers to; the caches that own the memory of the
buffers are left out.  `HTTPWriter::prepareBuffersForSend` is virtual: what it appends is
the parameter `header`.
-/
import PionCore.Net.HTTPMessage

namespace PionCore.Net

open PionCore.Lib

/-- The members of `HTTPWriter` that decide about what is sent. -/
structure HTTPWriter where
  contentBuffers : List Bytes := []
  /-- `m_content_stream`, the text that is not yet in a buffer -/
  contentStream : Bytes := []
  streamIsEmpty : Bool := true
  contentLength : ℕ := 0
  clientSupportsChunks : Bool := true
  sendingChunks : Bool := false
  sentHeaders : Bool := false
deriving DecidableEq

namespace HTTPWriter

def clear (w : HTTPWriter) : HTTPWriter :=
  { w with contentBuffers := [], contentStream := [], streamIsEmpty := true, contentLength := 0 }

/-- Text is moved from the stream to a buffer. -/
def flushContentStream (w : HTTPWriter) : HTTPWriter :=
  if ! w.streamIsEmpty then
    let w :=
      if w.contentStream ≠ [] then
        { w with
          contentStream := []
          contentLength := (w.contentLength + w.contentStream.length) % sizeMod
          contentBuffers := w.contentBuffers ++ [w.contentStream] }
      else w
    { w with streamIsEmpty := true }
  else w

/-- `write` of text, which is the text that the stream makes of the value written. -/
def write (w : HTTPWriter) (data : Bytes) : HTTPWriter :=
  { w with contentStream := w.contentStream ++ data, streamIsEmpty := false }

/-- A buffer of content behind what is in the stream. -/
def pushBuffer (w : HTTPWriter) (data : Bytes) : HTTPWriter :=
  let w := w.flushContentStream
  { w with
    contentBuffers := w.contentBuffers ++ [data]
    contentLength := (w.contentLength + data.length) % sizeMod }

/-- `write` of binary data, which is copied. -/
def writeBinary (w : HTTPWriter) (data : Bytes) : HTTPWriter :=
  if data.length ≠ 0 then w.pushBuffer data else w

/-- Both versions of `writeNoCopy`; the data persists until it is sent. -/
def writeNoCopy (w : HTTPWriter) (data : Bytes) : HTTPWriter :=
  if data ≠ [] then w.pushBuffer data else w

/-- `prepareWriteBuffers`: the buffers that are appended, one behind the other. -/
def prepareWriteBuffers (header : Bytes) (w : HTTPWriter) (sendFinalChunk : Bool) :
    Bytes × HTTPWriter :=
  let headers := if ! w.sentHeaders then header else []
  let chunked : Bool := w.clientSupportsChunks && w.sendingChunks
  let content :=
    if w.contentLength > 0 then
      if chunked then
        numeral 16 w.contentLength ++ stringCRLF ++ w.contentBuffers.flatten ++ stringCRLF
      else w.contentBuffers.flatten
    else []
  let final := if sendFinalChunk && chunked then [48] ++ stringCRLF ++ stringCRLF else []
  (headers ++ content ++ final, { w with sentHeaders := true })

def sendMoreData (header : Bytes) (w : HTTPWriter) (sendFinalChunk : Bool) : Bytes × HTTPWriter :=
  w.flushContentStream.prepareWriteBuffers header sendFinalChunk

def send (header : Bytes) (w : HTTPWriter) : Bytes × HTTPWriter :=
  w.sendMoreData header false

def sendChunk (header : Bytes) (w : HTTPWriter) : Bytes × HTTPWriter :=
  { w with sendingChunks := true }.sendMoreData header false

def sendFinalChunk (header : Bytes) (w : HTTPWriter) : Bytes × HTTPWriter :=
  { w with sendingChunks := true }.sendMoreData header true

end HTTPWriter

/-- One of the functions that write payload content. -/
inductive Payload where
  | write (data : Bytes)
  | writeBinary (data : Bytes)
  | writeNoCopy (data : Bytes)
deriving DecidableEq

/-- The bytes that are written. -/
def Payload.bytes : Payload → Bytes
  | .write data | .writeBinary data | .writeNoCopy data => data

namespace HTTPWriter

def writePayload (w : HTTPWriter) : Payload → HTTPWriter
  | .write data => w.write data
  | .writeBinary data => w.writeBinary data
  | .writeNoCopy data => w.writeNoCopy data

/-- Write a group of payloads, one behind the other. -/
def writeGroup (w : HTTPWriter) (group : List Payload) : HTTPWriter :=
  group.foldl writePayload w

/-- What is sent for a list of groups, each in a chunk of its own, and a last group with the
final chunk; the writer is cleared behind each chunk. -/
def sendGroups (header : Bytes) (w : HTTPWriter) : List (List Payload) → List Payload → Bytes
  | [], last => ((w.writeGroup last).sendFinalChunk header).1
  | group :: groups, last =>
      let x := (w.writeGroup group).sendChunk header
      x.1 ++ sendGroups header x.2.clear groups last

/-! ### What a writer holds -/

/-- The writer holds a payload, part of it in buffers and the rest in its stream. -/
structure Holds (w : HTTPWriter) (payload : Bytes) : Prop where
  content : w.contentBuffers.flatten ++ w.contentStream = payload
  length : w.contentLength = w.contentBuffers.flatten.length % sizeMod
  stream : w.streamIsEmpty = true → w.contentStream = []

/-- The members that decide about the framing. -/
def frame (w : HTTPWriter) : Bool × Bool × Bool :=
  (w.clientSupportsChunks, w.sendingChunks, w.sentHeaders)

lemma holds_clear (w : HTTPWriter) : w.clear.Holds [] := ⟨rfl, rfl, fun _ => rfl⟩

@[simp] lemma frame_clear (w : HTTPWriter) : w.clear.frame = w.frame := rfl

lemma holds_pushBuffer {w : HTTPWriter} {payload : Bytes} (hw : w.Holds payload)
    (hstream : w.contentStream = []) (data : Bytes) :
    Holds { w with
      contentBuffers := w.contentBuffers ++ [data]
      contentLength := (w.contentLength + data.length) % sizeMod } (payload ++ data) where
  content := by
    have h := hw.content
    rw [hstream, List.append_nil] at h
    simp [hstream, h]
  length := by simp [hw.length, Nat.mod_add_mod]
  stream := fun _ => hstream

/-- Behind a flush nothing is in the stream. -/
lemma holds_flushContentStream {w : HTTPWriter} {payload : Bytes} (hw : w.Holds payload) :
    w.flushContentStream.Holds payload ∧ w.flushContentStream.contentStream = [] ∧
      w.flushContentStream.frame = w.frame := by
  rw [flushContentStream]
  by_cases hempty : w.streamIsEmpty = true
  · rw [if_neg (by simp [hempty])]
    exact ⟨hw, hw.stream hempty, rfl⟩
  · rw [if_pos (by simpa using hempty)]
    by_cases hnil : w.contentStream = []
    · rw [if_neg (by simp [hnil])]
      exact ⟨⟨hw.content, hw.length, fun _ => hnil⟩, hnil, rfl⟩
    · rw [if_pos hnil]
      refine ⟨⟨?_, ?_, fun _ => rfl⟩, rfl, rfl⟩
      · simp [← hw.content]
      · simp [hw.length, Nat.mod_add_mod]

lemma holds_writePayload {w : HTTPWriter} {payload : Bytes} (hw : w.Holds payload)
    (p : Payload) :
    (w.writePayload p).Holds (payload ++ p.bytes) ∧ (w.writePayload p).frame = w.frame := by
  obtain ⟨hflush, hstream, hframe⟩ := holds_flushContentStream hw
  have hpush : ∀ data, (w.pushBuffer data).Holds (payload ++ data) ∧
      (w.pushBuffer data).frame = w.frame :=
    fun data => ⟨holds_pushBuffer hflush hstream data, hframe⟩
  have hskip : ∀ data : Bytes, data = [] → w.Holds (payload ++ data) ∧ w.frame = w.frame := by
    rintro data rfl
    exact ⟨by rwa [List.append_nil], rfl⟩
  cases p with
  | write data =>
    refine ⟨⟨?_, hw.length, by simp [writePayload, write]⟩, rfl⟩
    simp [writePayload, write, Payload.bytes, ← hw.content]
  | writeBinary data =>
    simp only [writePayload, writeBinary, Payload.bytes]
    split_ifs with h
    · exact hpush data
    · exact hskip data (by simpa using h)
  | writeNoCopy data =>
    simp only [writePayload, writeNoCopy, Payload.bytes]
    split_ifs with h
    · exact hpush data
    · exact hskip data (by simpa using h)

lemma holds_writeGroup {w : HTTPWriter} {payload : Bytes} (hw : w.Holds payload)
    (group : List Payload) :
    (w.writeGroup group).Holds (payload ++ group.flatMap Payload.bytes) ∧
      (w.writeGroup group).frame = w.frame := by
  induction group generalizing w payload with
  | nil => exact ⟨by rwa [List.flatMap_nil, List.append_nil], rfl⟩
  | cons p group ih =>
    obtain ⟨hp, hframe⟩ := holds_writePayload hw p
    obtain ⟨hg, hframe'⟩ := ih hp
    rw [List.append_assoc, ← List.flatMap_cons] at hg
    exact ⟨hg, hframe'.trans hframe⟩

/-! ### What a writer sends -/

/-- The chunk of a payload; there is none for an empty one. -/
def chunk (payload : Bytes) : Bytes :=
  if payload = [] then []
  else numeral 16 payload.length ++ stringCRLF ++ payload ++ stringCRLF

/-- The last chunk. -/
def finalChunk : Bytes := [48] ++ stringCRLF ++ stringCRLF

lemma sendMoreData_chunked (header : Bytes) {payload : Bytes} {w : HTTPWriter} (hw : w.Holds payload)
    (hsize : payload.length < sizeMod) (hchunks : w.clientSupportsChunks = true)
    (hsending : w.sendingChunks = true) (last : Bool) :
    (w.sendMoreData header last).1 =
      (if w.sentHeaders then [] else header) ++ chunk payload ++ (if last then finalChunk else []) ∧
    (w.sendMoreData header last).2.frame = (true, true, true) := by
  obtain ⟨hflush, hstream, hframe⟩ := holds_flushContentStream hw
  have hcontent := hflush.content
  rw [hstream, List.append_nil] at hcontent
  have hlength := hflush.length
  rw [hcontent, Nat.mod_eq_of_lt hsize] at hlength
  simp only [frame, Prod.mk.injEq] at hframe
  obtain ⟨h1, h2, h3⟩ := hframe
  constructor
  · simp only [sendMoreData, prepareWriteBuffers, hcontent, hlength, h1, h2, h3, hchunks, hsending,
      chunk, finalChunk]
    cases payload with
    | nil => cases last <;> cases w.sentHeaders <;> simp
    | cons c payload => cases last <;> cases w.sentHeaders <;> simp
  · simp [sendMoreData, prepareWriteBuffers, frame, h1, h2, hchunks, hsending]

lemma sendChunk_eq (header : Bytes) {payload : Bytes} {w : HTTPWriter} (hw : w.Holds payload)
    (hsize : payload.length < sizeMod) (hchunks : w.clientSupportsChunks = true) :
    (w.sendChunk header).1 = (if w.sentHeaders then [] else header) ++ chunk payload ∧
      (w.sendChunk header).2.frame = (true, true, true) := by
  have h := sendMoreData_chunked header (w := { w with sendingChunks := true })
    ⟨hw.content, hw.length, hw.stream⟩ hsize hchunks rfl false
  exact ⟨h.1.trans (List.append_nil _), h.2⟩

lemma sendFinalChunk_eq (header : Bytes) {payload : Bytes} {w : HTTPWriter} (hw : w.Holds payload)
    (hsize : payload.length < sizeMod) (hchunks : w.clientSupportsChunks = true) :
    (w.sendFinalChunk header).1 =
      (if w.sentHeaders then [] else header) ++ chunk payload ++ finalChunk :=
  (sendMoreData_chunked header (w := { w with sendingChunks := true })
    ⟨hw.content, hw.length, hw.stream⟩ hsize hchunks rfl true).1

/-- Every group that is not empty is sent as one chunk, behind the header. -/
theorem sendGroups_eq (header : Bytes) {w : HTTPWriter} (hw : w.Holds [])
    (hchunks : w.clientSupportsChunks = true) {groups : List (List Payload)} {last : List Payload}
    (hsize : ∀ group ∈ groups ++ [last], (group.flatMap Payload.bytes).length < sizeMod) :
    w.sendGroups header groups last =
      (if w.sentHeaders then [] else header) ++
        (groups ++ [last]).flatMap (fun group => chunk (group.flatMap Payload.bytes)) ++
        finalChunk := by
  induction groups generalizing w with
  | nil =>
    obtain ⟨hg, hframe⟩ := holds_writeGroup hw last
    simp only [frame, Prod.mk.injEq] at hframe
    obtain ⟨h1, -, h3⟩ := hframe
    rw [sendGroups, sendFinalChunk_eq header hg (hsize last (by simp)) (h1.trans hchunks), h3]
    simp
  | cons group groups ih =>
    obtain ⟨hg, hframe⟩ := holds_writeGroup hw group
    simp only [frame, Prod.mk.injEq] at hframe
    obtain ⟨h1, -, h3⟩ := hframe
    obtain ⟨hout, hnext⟩ :=
      sendChunk_eq header hg (hsize group (by simp)) (h1.trans hchunks)
    simp only [frame, Prod.mk.injEq] at hnext
    have hsent : ((w.writeGroup group).sendChunk header).2.clear.sentHeaders = true := hnext.2.2
    have htail := ih (w := ((w.writeGroup group).sendChunk header).2.clear) (holds_clear _) hnext.1
      (fun g hg => hsize g (List.mem_cons_of_mem group hg))
    rw [sendGroups, hout, h3, htail, hsent]
    simp

end HTTPWriter

end PionCore.Net
