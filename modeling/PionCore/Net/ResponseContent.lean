/-
# The content of a response

A response that has content of its own is handed to an `HTTPResponseWriter`, more is written, and
all of it is sent in one piece.  The constructor of the writer takes the content for empty if its
first byte is zero.
-/
import PionCore.Net.HTTPResponseWriter
import PionCore.Net.HTTPTransfer

namespace PionCore.Net

open PionCore.Lib

/-- The content that a response holds. -/
def HTTPMessage.payload (m : HTTPMessage) : Bytes :=
  if m.contentBuf = none then [] else m.getContent

namespace HTTPResponseWriter

/-- The constructor: the writer starts with the content of the response. -/
def create (response : HTTPMessage) : HTTPWriter :=
  let w : HTTPWriter := { clientSupportsChunks := response.chunksSupported }
  if response.contentLength > 0 ∧ response.contentBuf ≠ none ∧
      response.getContent.head? ≠ some 0 then
    w.writeNoCopy response.getContent
  else w

/-- `prepareBuffersForSend`. -/
def prepareBuffersForSend (ord : HashOrder) (keepAlive : Bool) (w : HTTPWriter)
    (response : HTTPMessage) : Bytes × HTTPMessage :=
  let response :=
    if w.contentLength > 0 then { response with contentLength := w.contentLength } else response
  response.prepareBuffersForSend ord keepAlive w.sendingChunks

/-- What one `send` puts on the wire. -/
structure Sent where
  block : Bytes
  wire : Bytes
  /-- the response behind the send -/
  response : HTTPMessage

/-- A writer is created for a response, payloads are written, and `send` is called. -/
def sendResponse (ord : HashOrder) (keepAlive : Bool) (response : HTTPMessage)
    (writes : List Payload) : Sent :=
  let w := (create response).writeGroup writes
  let x := prepareBuffersForSend ord keepAlive w.flushContentStream response
  ⟨x.1, (w.send x.1).1, x.2⟩

/-- The body is the content of the response and what is written behind it, and the content length
that is sent is its length. -/
def SentWhole (ord : HashOrder) (keepAlive : Bool) (response : HTTPMessage)
    (writes : List Payload) : Prop :=
  let body := response.payload ++ writes.flatMap Payload.bytes
  let sent := sendResponse ord keepAlive response writes
  sent.wire = sent.block ++ body ∧
    (∀ e ∈ sent.response.headers.equalRange headerContentLength, e.2 = numeral 10 body.length) ∧
    (response.doNotSendContentLength = false →
      sent.response.headers.equalRange headerContentLength ≠ [])

/-! ### What is sent -/

/-- What the constructor takes of the content. -/
def taken (response : HTTPMessage) : Bytes :=
  if response.payload.head? = some 0 then [] else response.payload

lemma payload_eq_nil {m : HTTPMessage} (h : m.payload = []) :
    ¬ (m.contentLength > 0 ∧ m.contentBuf ≠ none) := by
  rintro ⟨hpos, hbuf⟩
  rw [HTTPMessage.payload, if_neg hbuf] at h
  have hlength := m.length_getContent
  rw [h, List.length_nil] at hlength
  omega

/-- The writer holds what was taken, and is about to send it in one piece. -/
lemma holds_create (response : HTTPMessage) :
    (create response).Holds (taken response) ∧
      (create response).frame = (response.chunksSupported, false, false) := by
  have hempty : HTTPWriter.Holds { clientSupportsChunks := response.chunksSupported } [] :=
    ⟨rfl, rfl, fun _ => rfl⟩
  rw [create, taken]
  by_cases hbuf : response.contentBuf = none
  · rw [if_neg (by simp [hbuf]), HTTPMessage.payload, if_pos hbuf]
    exact ⟨by simpa using hempty, rfl⟩
  · rw [HTTPMessage.payload, if_neg hbuf]
    by_cases hzero : response.getContent.head? = some 0
    · rw [if_neg (by simp [hzero]), if_pos hzero]
      exact ⟨hempty, rfl⟩
    · rw [if_neg hzero]
      by_cases hpos : response.contentLength > 0
      · rw [if_pos ⟨hpos, hbuf, hzero⟩]
        exact HTTPWriter.holds_writePayload hempty (.writeNoCopy response.getContent)
      · have hnil : response.getContent = [] := by
          rw [← List.length_eq_zero_iff, response.length_getContent]
          omega
        rw [if_neg fun h => hpos h.1, hnil]
        exact ⟨hempty, rfl⟩

/-- All that a writer holds is sent, unless its length is counted as zero. -/
lemma send_eq (header : Bytes) {payload : Bytes} {w : HTTPWriter} (hw : w.Holds payload)
    (hsending : w.sendingChunks = false) (hsent : w.sentHeaders = false) :
    (w.send header).1 = header ++ (if payload.length % sizeMod > 0 then payload else []) ∧
      w.flushContentStream.contentLength = payload.length % sizeMod ∧
      w.flushContentStream.sendingChunks = false := by
  obtain ⟨hflush, hstream, hframe⟩ := HTTPWriter.holds_flushContentStream hw
  have hcontent := hflush.content
  rw [hstream, List.append_nil] at hcontent
  have hlength := hflush.length
  rw [hcontent] at hlength
  simp only [HTTPWriter.frame, Prod.mk.injEq] at hframe
  obtain ⟨-, h2, h3⟩ := hframe
  refine ⟨?_, hlength, h2.trans hsending⟩
  simp only [HTTPWriter.send, HTTPWriter.sendMoreData, HTTPWriter.prepareWriteBuffers, hcontent,
    hlength, h2, h3, hsending, hsent]
  simp

lemma contentLength_ne_connection :
    equalIgnoreCase headerContentLength headerConnection = false := by
  decide

/-- The content lengths that are sent. -/
lemma equalRange_prepareBuffersForSend (ord : HashOrder) (keepAlive : Bool) (m : HTTPMessage) :
    (m.doNotSendContentLength = true →
      (m.prepareBuffersForSend ord keepAlive false).2.headers.equalRange headerContentLength =
        m.headers.equalRange headerContentLength) ∧
    (m.doNotSendContentLength = false → ∃ k,
      (m.prepareBuffersForSend ord keepAlive false).2.headers.equalRange headerContentLength =
        [(k, numeral 10 m.contentLength)]) := by
  have hheaders : (m.prepareBuffersForSend ord keepAlive false).2.headers =
      (m.prepareHeadersForSend keepAlive false).headers := by
    rw [HTTPMessage.prepareBuffersForSend]
    simp only [HTTPMessage.getFirstLine]
    split_ifs <;> rfl
  rw [hheaders, HTTPMessage.prepareHeadersForSend]
  constructor
  · intro hnot
    simp only [HTTPMessage.changeHeader, hnot, Bool.not_true, Bool.false_eq_true, if_false]
    exact StringDictionary.equalRange_changeValue_of_ne contentLength_ne_connection _ _
  · intro hsends
    simp only [HTTPMessage.changeHeader, hsends, Bool.not_false, Bool.false_eq_true, if_false,
      if_true]
    obtain ⟨k, -, hk⟩ := StringDictionary.equalRange_changeValue
      (m.headers.changeValue headerConnection (if keepAlive then ascii "Keep-Alive" else
        ascii "close")) headerContentLength (numeral 10 m.contentLength)
    exact ⟨k, hk⟩

lemma numeral_inj {m n : ℕ} (h : numeral 10 m = numeral 10 n) : m = n := by
  rw [← readNumeral_numeral (by decide : 1 < 10) (by decide) m, h,
    readNumeral_numeral (by decide) (by decide)]

section Send

variable (ord : HashOrder) (keepAlive : Bool) (response : HTTPMessage) (writes : List Payload)

/-- The length that a writer has counted. -/
def counted : ℕ := (taken response ++ writes.flatMap Payload.bytes).length % sizeMod

lemma wire_sendResponse :
    (sendResponse ord keepAlive response writes).wire =
      (sendResponse ord keepAlive response writes).block ++
        (if counted response writes > 0 then taken response ++ writes.flatMap Payload.bytes
          else []) := by
  obtain ⟨hcreate, hframe⟩ := holds_create response
  obtain ⟨hw, hsame⟩ := HTTPWriter.holds_writeGroup hcreate writes
  rw [hframe] at hsame
  simp only [HTTPWriter.frame, Prod.mk.injEq] at hsame
  exact (send_eq _ hw hsame.2.1 hsame.2.2).1

/-- The headers are those of the response with the length that was counted, if any was. -/
lemma headers_sendResponse :
    (sendResponse ord keepAlive response writes).response =
      (HTTPMessage.prepareBuffersForSend ord
        (if counted response writes > 0 then
          { response with contentLength := counted response writes } else response)
        keepAlive false).2 := by
  obtain ⟨hcreate, hframe⟩ := holds_create response
  obtain ⟨hw, hsame⟩ := HTTPWriter.holds_writeGroup hcreate writes
  rw [hframe] at hsame
  simp only [HTTPWriter.frame, Prod.mk.injEq] at hsame
  obtain ⟨-, hlength, hsending⟩ := send_eq [] hw hsame.2.1 hsame.2.2
  simp only [sendResponse, prepareBuffersForSend, hlength, hsending]
  rfl

/-- The content lengths on the wire. -/
lemma lengths_sendResponse :
    (response.doNotSendContentLength = true →
      (sendResponse ord keepAlive response writes).response.headers.equalRange
        headerContentLength = response.headers.equalRange headerContentLength) ∧
    (response.doNotSendContentLength = false → ∃ k,
      (sendResponse ord keepAlive response writes).response.headers.equalRange
        headerContentLength = [(k, numeral 10 (if counted response writes > 0 then
          counted response writes else response.contentLength))]) := by
  rw [headers_sendResponse]
  split_ifs with hpos
  · exact equalRange_prepareBuffersForSend ord keepAlive
      { response with contentLength := counted response writes }
  · exact equalRange_prepareBuffersForSend ord keepAlive response

variable {response}

lemma taken_eq (h : response.payload.head? ≠ some 0) : taken response = response.payload :=
  if_neg h

/-- A content that begins with a zero is lost. -/
lemma not_sentWhole (h : response.payload.head? = some 0) :
    ¬ SentWhole ord keepAlive response writes := by
  rintro ⟨hwire, -⟩
  have htaken : taken response = [] := if_pos h
  have hne : response.payload ≠ [] := by
    intro hnil
    rw [hnil] at h
    cases h
  rw [wire_sendResponse, List.append_cancel_left_eq, htaken, List.nil_append] at hwire
  have hlength := congrArg List.length hwire
  have hpos := List.length_pos_of_ne_nil hne
  rw [List.length_append] at hlength
  split_ifs at hlength
  · omega
  · rw [List.length_nil] at hlength
    omega

variable (response)

/-- The response is sent whole if its content does not begin with a zero, and if its length is
counted right and sent. -/
theorem sentWhole_iff :
    SentWhole ord keepAlive response writes ↔
      response.payload.head? ≠ some 0 ∧
      (let total := (response.payload ++ writes.flatMap Payload.bytes).length
      (total % sizeMod = 0 → total = 0) ∧
        (response.doNotSendContentLength = true →
          ∀ e ∈ response.headers.equalRange headerContentLength, e.2 = numeral 10 total) ∧
        (response.doNotSendContentLength = false →
          total < sizeMod ∧ (total = 0 → response.contentLength = 0))) := by
  by_cases hzero : response.payload.head? = some 0
  · exact ⟨fun h => absurd h (not_sentWhole ord keepAlive writes hzero), fun h => absurd hzero h.1⟩
  set body := response.payload ++ writes.flatMap Payload.bytes with hbody
  have hcounted : counted response writes = body.length % sizeMod := by
    rw [counted, taken_eq hzero]
  have hwire := wire_sendResponse ord keepAlive response writes
  obtain ⟨hsame, hset⟩ := lengths_sendResponse ord keepAlive response writes
  rw [taken_eq hzero, hcounted, ← hbody] at hwire
  rw [hcounted] at hset
  simp only [SentWhole, ← hbody]
  constructor
  · rintro ⟨hsent, hlengths, -⟩
    rw [hwire, List.append_cancel_left_eq] at hsent
    have hempty : body.length % sizeMod = 0 → body.length = 0 := by
      intro hmod
      rw [if_neg (by omega)] at hsent
      rw [← hsent, List.length_nil]
    refine ⟨hzero, hempty, fun hnot => hsame hnot ▸ hlengths, fun hsends => ?_⟩
    obtain ⟨k, hk⟩ := hset hsends
    have heq := numeral_inj (hlengths _ (by rw [hk]; exact List.mem_singleton_self _))
    have hlt := mod_sizeMod_lt body.length
    split_ifs at heq with hpos
    · exact ⟨by omega, by omega⟩
    · have h0 := hempty (by omega)
      exact ⟨by omega, fun _ => by omega⟩
  · rintro ⟨-, hempty, hnot, hsends⟩
    refine ⟨?_, ?_, fun hfalse => ?_⟩
    · rw [hwire]
      split_ifs with hpos
      · rfl
      · rw [List.length_eq_zero_iff.1 (hempty (by omega))]
    · cases hdo : response.doNotSendContentLength with
      | true =>
        rw [hsame hdo]
        exact hnot hdo
      | false =>
        obtain ⟨k, hk⟩ := hset hdo
        obtain ⟨hlt, hnone⟩ := hsends hdo
        rw [hk]
        intro e he
        rw [List.mem_singleton.1 he, Nat.mod_eq_of_lt hlt]
        split_ifs with hpos
        · rfl
        · rw [hnone (by omega), show body.length = 0 by omega]
    · obtain ⟨k, hk⟩ := hset hfalse
      rw [hk]
      simp

/-- A zero and a letter: the length that is sent is two, and nothing follows. -/
theorem not_sentWhole_zero :
    ¬ SentWhole .insertion true ((HTTPMessage.newResponse []).setContent [0, 97]) [] :=
  not_sentWhole .insertion true [] (by decide +kernel)

end Send

end HTTPResponseWriter

end PionCore.Net
