/-
# Writers at both ends

`HTTPRequestWriter` does for a request what `HTTPResponseWriter` does for a response: it starts
with the content of the message, more is written, and all of it is sent in one piece.  A message
that the parser has room for arrives as it was meant: with its head, and with all that was written
as its content, whatever follows on the wire (`scan_arrives`).
-/
import PionCore.Net.ResponseContent

namespace PionCore.Net

open PionCore.Lib

namespace HTTPRequestWriter

/-- The constructor: the writer starts with the content of the request. -/
def create (request : HTTPMessage) : HTTPWriter :=
  let w : HTTPWriter := {}
  if request.contentLength > 0 ∧ request.contentBuf ≠ none ∧
      request.getContent.head? ≠ some 0 then
    w.writeNoCopy request.getContent
  else w

/-- `prepareBuffersForSend`. -/
def prepareBuffersForSend (ord : HashOrder) (keepAlive : Bool) (w : HTTPWriter)
    (request : HTTPMessage) : Bytes × HTTPMessage :=
  let request :=
    if w.contentLength > 0 then { request with contentLength := w.contentLength } else request
  request.prepareBuffersForSend ord keepAlive w.sendingChunks

/-- A writer is created for a request, payloads are written, and `send` is called: the bytes on the
wire. -/
def sendRequest (ord : HashOrder) (keepAlive : Bool) (request : HTTPMessage)
    (writes : List Payload) : Bytes :=
  let w := (create request).writeGroup writes
  (w.send (prepareBuffersForSend ord keepAlive w.flushContentStream request).1).1

/-- The writer holds what a writer of responses takes. -/
lemma holds_create (request : HTTPMessage) :
    (create request).Holds (HTTPResponseWriter.taken request) ∧
      (create request).frame = (true, false, false) :=
  HTTPResponseWriter.holds_create { request with chunksSupported := true }

end HTTPRequestWriter

/-! ### Messages that are sent -/

/-- A message, and what is written behind its content. -/
structure Outgoing where
  message : HTTPMessage
  writes : List Payload

namespace Outgoing

/-- All that is meant to be the content. -/
def body (x : Outgoing) : Bytes := x.message.payload ++ x.writes.flatMap Payload.bytes

/-- What the writer of the kind of the message puts on the wire. -/
def wire (ord : HashOrder) (keepAlive : Bool) (x : Outgoing) : Bytes :=
  if x.message.isRequest then HTTPRequestWriter.sendRequest ord keepAlive x.message x.writes
  else (HTTPResponseWriter.sendResponse ord keepAlive x.message x.writes).wire

/-- The message that is sent: the whole body is its content. -/
def whole (x : Outgoing) : HTTPMessage :=
  { x.message with
    contentLength := x.body.length
    contentBuf := some (x.body.map some ++ [some 0]) }

/-- The parser has room for the message, and it keeps the connection alive.  The content that the
message starts with does not begin with a zero. -/
structure Fits (x : Outgoing) : Prop where
  line : x.message.LineOk
  major : x.message.versionMajor < uint16Mod
  minor : x.message.versionMinor < uint16Mod
  version : x.message.versionMajor > 1 ∨
    x.message.versionMajor ≥ 1 ∧ x.message.versionMinor ≥ 1
  fresh : x.message.FreshLine
  headers : ∀ e ∈ x.message.headers, HeaderOk e
  notChunked : x.message.announcesChunks = false
  sendsLength : x.message.doNotSendContentLength = false
  first : x.message.payload.head? ≠ some 0
  size : x.body.length ≤ defaultContentMax
  empty : x.body = [] → x.message.contentLength = 0
  implied : x.message.isContentLengthImplied = true → x.body = []

/-- A message arrives: it is valid, has the head of the one that was sent, but for the headers that
the writer sets, and the whole body. -/
structure Arrives (x : Outgoing) (m : HTTPMessage) : Prop where
  isValid : m.isValid = true
  sameHead : m.SameHead x.message
  content : m.contentCells = x.body.map some

/-! ### The bytes on the wire -/

lemma contentCells_whole (x : Outgoing) : x.whole.contentCells = x.body.map some :=
  HTTPMessage.contentCells_eq rfl rfl

lemma getContent_whole (x : Outgoing) : x.whole.getContent = x.body := by
  rw [HTTPMessage.getContent, contentCells_whole, List.map_map]
  exact List.map_id _

namespace Fits

variable {x : Outgoing}

lemma length_lt (hx : x.Fits) : x.body.length < sizeMod := lt_of_le_of_lt hx.size (by decide)

lemma sendable (hx : x.Fits) : x.whole.Sendable where
  line := hx.line
  major := hx.major
  minor := hx.minor
  headers := hx.headers
  notChunked := hx.notChunked
  sendsLength := hx.sendsLength
  complete := by
    rw [HTTPMessage.Complete, contentCells_whole]
    simp
  size := hx.size
  implied := fun h => List.length_eq_zero_iff.2 (hx.implied h)

/-- The length that is counted becomes that of the message. -/
lemma counted_eq (hx : x.Fits) :
    (if x.body.length % sizeMod > 0 then
      { x.message with contentLength := x.body.length % sizeMod } else x.message) =
      { x.message with contentLength := x.body.length } := by
  rw [Nat.mod_eq_of_lt hx.length_lt]
  split_ifs with h
  · rfl
  · have hnil : x.body = [] := List.length_eq_zero_iff.1 (by omega)
    rw [hnil, List.length_nil, ← hx.empty hnil]

/-- The header on the wire. -/
lemma block_eq (ord : HashOrder) (hx : x.Fits) :
    (HTTPMessage.prepareBuffersForSend ord { x.message with contentLength := x.body.length }
      true false).1 =
      x.whole.updateFirstLine ++ (stringCRLF ++
        ((ord.walk x.whole.sentHeaders).flatMap HTTPMessage.headerLine ++ stringCRLF)) := by
  set m : HTTPMessage := { x.message with contentLength := x.body.length } with hm
  have hsends : m.doNotSendContentLength = false := hx.sendsLength
  have hprepare :
      m.prepareHeadersForSend true false = { m with headers := x.whole.sentHeaders } := by
    simp only [HTTPMessage.prepareHeadersForSend, HTTPMessage.changeHeader, hsends]
    rfl
  have hline := HTTPMessage.getFirstLine_fst { m with headers := x.whole.sentHeaders }
  have hheaders : ({ m with headers := x.whole.sentHeaders } : HTTPMessage).getFirstLine.2.headers =
      x.whole.sentHeaders := by
    rw [HTTPMessage.getFirstLine]
    split_ifs <;> rfl
  have hfresh : (if m.firstLine = [] then m.updateFirstLine else m.firstLine) =
      x.whole.updateFirstLine := by
    split_ifs with h
    · rfl
    · exact hx.fresh.resolve_left h
  simp only [HTTPMessage.prepareBuffersForSend, hprepare, HTTPMessage.appendHeaders, hheaders,
    hline]
  rw [← hfresh]
  simp only [List.append_assoc]
  rfl

end Fits

/-- Both writers send the header and then all that they hold. -/
lemma wire_eq_append (ord : HashOrder) {x : Outgoing} (hx : x.Fits) :
    x.wire ord true =
      (HTTPMessage.prepareBuffersForSend ord { x.message with contentLength := x.body.length }
        true false).1 ++ x.body := by
  have htaken : HTTPResponseWriter.taken x.message = x.message.payload :=
    HTTPResponseWriter.taken_eq hx.first
  have hall : ∀ block : Bytes,
      block ++ (if x.body.length % sizeMod > 0 then x.body else []) = block ++ x.body := by
    intro block
    rw [Nat.mod_eq_of_lt hx.length_lt]
    split_ifs with h
    · rfl
    · rw [List.length_eq_zero_iff.1 (by omega : x.body.length = 0)]
  -- what is said about a writer that holds the body, with its sender
  have hsend : ∀ w : HTTPWriter, w.Holds x.body → w.sendingChunks = false → w.sentHeaders = false →
      (w.send (HTTPMessage.prepareBuffersForSend ord
        (if w.flushContentStream.contentLength > 0 then
          { x.message with contentLength := w.flushContentStream.contentLength } else x.message)
        true w.flushContentStream.sendingChunks).1).1 =
      (HTTPMessage.prepareBuffersForSend ord { x.message with contentLength := x.body.length }
        true false).1 ++ x.body := by
    intro w hw hsending hsent
    obtain ⟨-, hlength, hno⟩ := HTTPResponseWriter.send_eq [] hw hsending hsent
    rw [hlength, hno, hx.counted_eq, (HTTPResponseWriter.send_eq _ hw hsending hsent).1, hall]
  rw [wire]
  split_ifs
  · obtain ⟨hcreate, hframe⟩ := HTTPRequestWriter.holds_create x.message
    obtain ⟨hw, hsame⟩ := HTTPWriter.holds_writeGroup hcreate x.writes
    rw [hframe] at hsame
    simp only [HTTPWriter.frame, Prod.mk.injEq] at hsame
    rw [htaken] at hw
    exact hsend _ hw hsame.2.1 hsame.2.2
  · obtain ⟨hcreate, hframe⟩ := HTTPResponseWriter.holds_create x.message
    obtain ⟨hw, hsame⟩ := HTTPWriter.holds_writeGroup hcreate x.writes
    rw [hframe] at hsame
    simp only [HTTPWriter.frame, Prod.mk.injEq] at hsame
    rw [htaken] at hw
    exact hsend _ hw hsame.2.1 hsame.2.2

/-- The bytes on the wire are the text of the whole message. -/
lemma wire_eq (ord : HashOrder) {x : Outgoing} (hx : x.Fits) :
    x.wire ord true = x.whole.updateFirstLine ++ (stringCRLF ++
      ((ord.walk x.whole.sentHeaders).flatMap HTTPMessage.headerLine ++
        (stringCRLF ++ x.whole.getContent))) := by
  rw [wire_eq_append ord hx, hx.block_eq ord, getContent_whole]
  simp only [List.append_assoc]

/-! ### The message that is read -/

lemma connection_sent (ord : HashOrder) (m : HTTPMessage) {m' : HTTPMessage}
    (h : m'.headers = ord.walk m.sentHeaders) :
    m'.getHeader headerConnection = ascii "Keep-Alive" := by
  obtain ⟨k, -, hk⟩ := StringDictionary.equalRange_changeValue m.headers headerConnection
    (ascii "Keep-Alive")
  have hrange : m'.headers.equalRange headerConnection = [(k, ascii "Keep-Alive")] := by
    calc m'.headers.equalRange headerConnection
        = StringDictionary.equalRange (ord.walk m.sentHeaders) headerConnection := by rw [h]
      _ = m.sentHeaders.equalRange headerConnection := ord.equalRange_walk _ _
      _ = (m.headers.changeValue headerConnection (ascii "Keep-Alive")).equalRange
            headerConnection :=
          StringDictionary.equalRange_changeValue_of_ne (by decide) _ _
      _ = [(k, ascii "Keep-Alive")] := hk
  rw [HTTPMessage.getHeader, StringDictionary.getValue, StringDictionary.find_eq_head, hrange]
  rfl

/-- A message that is sent arrives, whatever follows it, and keeps the connection alive. -/
lemma scan_arrives (ord : HashOrder) {x : Outgoing} (hx : x.Fits) {t : HTTPMessage}
    (ht : Session.Receives t x.whole) (rest : Bytes) :
    ∃ v : Session, scan Session.byteTurn
        (newSession x.message.isRequest defaultContentMax false false t .success)
        (x.wire ord true ++ rest) = ⟨some .yes, rest, v⟩ ∧
      v.ec = .success ∧ x.Arrives v.msg ∧ v.msg.checkKeepAlive = true := by
  obtain ⟨v, hscan, hec, hvalid, hhead, hcells⟩ := Session.scan_sent ord hx.sendable ht
  rw [← wire_eq ord hx] at hscan
  have hkind : x.whole.isRequest = x.message.isRequest := rfl
  rw [hkind] at hscan
  simp only [HTTPMessage.head, Prod.mk.injEq] at hhead
  obtain ⟨hfields, ⟨hmajor, hminor⟩, hheaders⟩ := hhead
  refine ⟨v, ?_, hec, ⟨hvalid, ⟨hfields, hmajor, hminor, fun k h1 h2 => ?_⟩, ?_⟩, ?_⟩
  · rw [Lib.scan_append, hscan, Scanned.resume_some rfl, List.nil_append]
  · rw [hheaders]
    exact HTTPMessage.equalRange_sent ord x.whole h1 h2
  · rw [hcells, contentCells_whole]
  · have hversion := hx.version
    have hne : ascii "Keep-Alive" ≠ ascii "close" := by decide
    simp only [HTTPMessage.checkKeepAlive, connection_sent ord x.whole hheaders, hmajor, hminor,
      decide_eq_true_eq]
    exact ⟨hne, hversion⟩

end Outgoing

end PionCore.Net
