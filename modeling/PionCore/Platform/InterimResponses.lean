/-
# Responses 100 before the final response

When a response 100 (Continue) has been skipped, the message of the response is cleared, and with
it what the response has been told of the request.  A final response is then read like one to any
other request (`continue_transparent`): this makes a difference if the method is `HEAD` and the
response announces content.
-/
import PionCore.Net.ChunkedTransfer
import PionCore.Net.RequestInfo
import PionCore.Platform.Packetisation

namespace PionCore.Platform

open PionCore.Lib PionCore.Net

/-- An event without the counters. -/
def ProtocolEvent.contents {τ ρ : Type*} (e : ProtocolEvent τ ρ) : ProtocolEvent τ ρ :=
  { e.fields with csBytes := 0, scBytes := 0, bytes := 0 }

namespace HTTPProtocol

open Session

/-! ### What is seen of a response -/

/-- The sessions differ in what the response has been told, and in what is not seen of a parser. -/
def SameResponse (s s' : Session) : Prop := s.core.forget.untold = s'.core.forget.untold

lemma core_forget (s : Session) : s.core.forget = s.forget.core := by
  obtain ⟨⟨isRequest, readBuf, mst, h, ch, remaining, read, last, total, mx, only, raw⟩, m, ec⟩ := s
  cases mst <;> rfl

lemma SameResponse.of_alike {s s' : Session} (h : s.Alike s') : SameResponse s s' := by
  have hcore : s.core = s'.core := h
  rw [SameResponse, hcore]

lemma SameResponse.of_forget {s s' : Session} (h : s.forget = s'.forget) : SameResponse s s' := by
  rw [SameResponse, core_forget, core_forget, h]

lemma SameResponse.of_untold {s s' : Session} (h : s.untold = s'.untold) : SameResponse s s' := by
  have hview := congrArg (fun s : Session => s.core.forget) h
  exact hview

lemma SameResponse.symm {s s' : Session} (h : SameResponse s s') : SameResponse s' s := Eq.symm h

lemma SameResponse.trans {s s' s'' : Session} (h : SameResponse s s') (h' : SameResponse s' s'') :
    SameResponse s s'' := Eq.trans h h'

lemma SameResponse.msg {s s' : Session} (h : SameResponse s s') : s.msg.untold = s'.msg.untold :=
  (congrArg Session.msg h : s.core.forget.untold.msg = s'.core.forget.untold.msg)

lemma SameResponse.rawHeaders {s s' : Session} (h : SameResponse s s') :
    rawHeaders s = rawHeaders s' :=
  (congrArg (fun s => HTTPProtocol.rawHeaders s) h :
    HTTPProtocol.rawHeaders s.core.forget.untold = HTTPProtocol.rawHeaders s'.core.forget.untold)

lemma SameResponse.setMsg {s s' : Session} (h : SameResponse s s') {m m' : HTTPMessage}
    (hm : m.untold = m'.untold) : SameResponse { s with msg := m } { s' with msg := m' } := by
  have hparser : s.core.forget.parser = s'.core.forget.parser :=
    (congrArg Session.parser h : s.core.forget.untold.parser = s'.core.forget.untold.parser)
  show Session.mk s.core.forget.parser m.untold .success =
    Session.mk s'.core.forget.parser m'.untold .success
  rw [hparser, hm]

lemma finish_core (s : Session) : finish s.core.parser = finish s.parser := by
  obtain ⟨⟨isRequest, readBuf, mst, h, ch, remaining, read, last, total, mx, only, raw⟩, m, ec⟩ := s
  funext m
  cases mst <;> rfl

lemma SameResponse.finishMessage {s s' : Session} (h : SameResponse s s') :
    SameResponse (finishMessage s) (HTTPProtocol.finishMessage s') := by
  have hfinish : finish s.parser = finish s'.parser := by
    rw [← finish_core s, ← finish_core s', ← finish_forget s.core, ← finish_forget s'.core]
    exact (congrArg (fun s : Session => finish s.parser) h :
      finish s.core.forget.untold.parser = finish s'.core.forget.untold.parser)
  have hvalid : s.msg.isValid = s'.msg.isValid :=
    (congrArg HTTPMessage.isValid h.msg : s.msg.untold.isValid = s'.msg.untold.isValid)
  rw [HTTPProtocol.finishMessage, HTTPProtocol.finishMessage, hvalid]
  split_ifs
  · exact h
  · refine h.setMsg ?_
    rw [← HTTPMessage.untold_finish, ← HTTPMessage.untold_finish s'.parser, hfinish, h.msg]

/-! ### Parsers of responses that start -/

/-- A parser of responses that is new or has been reset, with a message without a status line. -/
structure Fresh (s : Session) (maxContentLength : ℕ) (saveRawHeaders : Bool) : Prop where
  parser : { s.parser with readBuf := [] }.core =
    (HTTPParser.new false maxContentLength false saveRawHeaders).core
  msg : s.msg.unstarted = (HTTPMessage.newResponse []).unstarted

variable {s s' : Session} {max : ℕ} {raw : Bool} {w : Bytes}

/-- A new parser with the message. -/
def anew (s : Session) (max : ℕ) (raw : Bool) : Session := newSession false max false raw s.msg s.ec

lemma Fresh.isRequest (h : Fresh s max raw) : s.msg.isRequest = false := by
  have hkind := congrArg HTTPMessage.kind h.msg
  rw [HTTPMessage.isRequest]
  cases hm : s.msg.kind with
  | request r => simp [HTTPMessage.unstarted, hm, MessageKind.unstarted, HTTPMessage.newResponse]
      at hkind
  | response r => rfl

lemma Fresh.parseStart (h : Fresh s max raw) :
    s.parser.messageParseState = .parseStart ∧ totalBytes s = 0 :=
  ⟨(congrArg HTTPParser.messageParseState h.parser :
      { s.parser with readBuf := [] }.core.messageParseState = _),
    (congrArg HTTPParser.bytesTotalRead h.parser :
      { s.parser with readBuf := [] }.core.bytesTotalRead = _)⟩

lemma Fresh.reader (h : Fresh s max raw) : Reader s :=
  reader_of_start h.parseStart.1 h.parseStart.2

lemma Fresh.markData (h : Fresh s max raw) : (anew s max raw).markData = anew s max raw := by
  rw [markData_eq_self]
  have hgaps : s.msg.hasMissingPackets = false :=
    (congrArg HTTPMessage.hasMissingPackets h.msg : s.msg.unstarted.hasMissingPackets = _)
  intro hmissing
  exact absurd (hgaps.symm.trans hmissing) (by simp)

/-- A text is read by the machine of a new parser. -/
lemma Fresh.read (h : Fresh s max raw) (hw : w ≠ []) :
    (s.read w).result = (scan byteTurn (anew s max raw) w).result ∧
      (s.read w).rest = (scan byteTurn (anew s max raw) w).rest ∧
      SameResponse (s.read w).state (scan byteTurn (anew s max raw) w).state := by
  have hready : (anew s max raw).Ready := newSession_ready false max false raw s.msg s.ec
  have halike : (s.setReadBuffer w).Alike ((anew s max raw).setReadBuffer w) :=
    congrArg (fun p : HTTPParser => Session.mk { p with readBuf := w } s.msg s.ec) h.parser
  obtain ⟨hrc, hstate⟩ := parse_alike halike
  have hrest : (s.read w).rest = ((anew s max raw).read w).rest :=
    hstate.get (fun t => t.parser.readBuf) fun _ => rfl
  have hrun := run_read hready hw
  rw [scan_dataTurn hready hw, h.markData] at hrun
  obtain ⟨hresult, hrest', hforget⟩ := Scanned.mk.inj hrun
  refine ⟨?_, hrest.trans hrest', (SameResponse.of_alike hstate).trans (.of_forget hforget)⟩
  rw [← hresult]
  exact congrArg known hrc

/-- A response that is not skipped: it is complete, or its content ends with the connection. -/
structure FinalResponse (s : Session) (w : Bytes) : Prop where
  ne_nil : w ≠ []
  rest : (s.read w).rest = []
  result : (s.read w).result = some .yes ∧
      getStatusCode (s.read w).state.msg ≠ responseCodeContinue ∨
    (s.read w).result = none ∧
      (s.read w).state.parser.messageParseState = .parseContentNoLength

lemma FinalResponse.final (h : FinalResponse s w) : Final s w :=
  ⟨h.ne_nil, h.rest, h.result.elim (fun h => Or.inr h) fun h => Or.inl h.1⟩

/-- The response is read alike. -/
structure ReadsAlike (s s' : Session) (w : Bytes) : Prop where
  result : (s.read w).result = (s'.read w).result
  rest : (s.read w).rest = (s'.read w).rest
  state : SameResponse (s.read w).state (s'.read w).state

lemma Fresh.unstarted (h : Fresh s max raw) (h' : Fresh s' max raw) :
    Unstarted (anew s max raw) (anew s' max raw) :=
  ⟨rfl, rfl, h.isRequest, h.msg.trans h'.msg.symm⟩

lemma Fresh.readsAlike (h : Fresh s max raw) (h' : Fresh s' max raw) (hw : w ≠ [])
    (hscan : (scan byteTurn (anew s max raw) w).map untold =
      (scan byteTurn (anew s' max raw) w).map untold) : ReadsAlike s s' w := by
  obtain ⟨hresult, hrest, hstate⟩ := h.read hw
  obtain ⟨hresult', hrest', hstate'⟩ := h'.read hw
  have hr := congrArg Scanned.result hscan
  have ht := congrArg Scanned.rest hscan
  refine ⟨hresult.trans (hr.trans hresult'.symm), hrest.trans (ht.trans hrest'.symm), ?_⟩
  exact hstate.trans ((SameResponse.of_untold (congrArg Scanned.state hscan)).trans hstate'.symm)

lemma Fresh.done (h : Fresh s max raw) (hw : FinalResponse s w) :
    ((anew s max raw).headerScan w).result = some .done := by
  obtain ⟨hresult, -, hstate⟩ := h.read hw.ne_nil
  refine done_of_result (Or.inl rfl) hw.ne_nil ?_
  rw [← hresult]
  refine hw.result.imp And.left fun hnone => ⟨hnone.1, ?_⟩
  exact (congrArg (fun t : Session => t.parser.messageParseState) hstate).symm.trans hnone.2

/-- A final response is read alike if both responses are to `HEAD`, or both are not. -/
lemma FinalResponse.readsAlike (hw : FinalResponse s w) (h : Fresh s max raw)
    (h' : Fresh s' max raw) (hhead : s.msg.answersHead = s'.msg.answersHead) :
    ReadsAlike s s' w := by
  have hunstarted := h.unstarted h'
  refine h.readsAlike h' hw.ne_nil (scan_told hunstarted (Or.inl rfl) hw.ne_nil (h.done hw) ?_)
  have hend := hunstarted.atHeaderEnd w
  refine HTTPMessage.framing_untold hend.headed ?_
  rw [answersHead_headed hend.isRequest, answersHead_headed (hend.parser ▸ hend.isRequest),
    answersHead_atHeaderEnd, answersHead_atHeaderEnd]
  exact hhead

lemma framesStatus_untold {m m' : HTTPMessage} (h : m.untold = m'.untold) :
    getStatusCode m = getStatusCode m' := by
  have hcode : ∀ m : HTTPMessage, getStatusCode m.untold = getStatusCode m := by
    intro m
    obtain ⟨kind, line, valid, ch, sup, ds, ma, mi, len, buf, cache, hs, cs, st, hm, hd, ww⟩ := m
    cases kind <;> rfl
  rw [← hcode m, h, hcode]

lemma framesItself_untold {m m' : HTTPMessage} (h : m.untold = m'.untold) :
    m.FramesItself ↔ m'.FramesItself := by
  have hhead : ∀ m : HTTPMessage, m.untold.head = m.head := by
    intro m
    obtain ⟨kind, line, valid, ch, sup, ds, ma, mi, len, buf, cache, hs, cs, st, hm, hd, ww⟩ := m
    cases kind <;> rfl
  refine HTTPMessage.framesItself_congr ?_
  rw [← hhead m, h, hhead]

/-- A final response to `HEAD` is read alike without the `HEAD` if it frames itself; otherwise it is
not complete. -/
lemma FinalResponse.answersHead (hw : FinalResponse s w) (h : Fresh s max raw)
    (h' : Fresh s' max raw) (hhead : s.msg.answersHead = true)
    (hother : s'.msg.answersHead = false) :
    ((s.read w).state.msg.FramesItself → ReadsAlike s s' w) ∧
      (¬ (s.read w).state.msg.FramesItself →
        (s.read w).result = some .yes ∧ (s'.read w).result ≠ some .yes) := by
  obtain ⟨hresult, hrest, hstate⟩ := h.read hw.ne_nil
  obtain ⟨hresult', -, -⟩ := h'.read hw.ne_nil
  obtain ⟨hframes, hlost⟩ := scan_answersHead (h.unstarted h') (Or.inl rfl) hw.ne_nil hhead hother
    rfl (h.done hw) (hrest.symm.trans hw.rest)
  rw [framesItself_untold hstate.msg, hresult, hresult']
  exact ⟨fun hf => h.readsAlike h' hw.ne_nil (hframes hf), hlost⟩

/-! ### The parser of the responses, before and behind the responses 100 -/

section Sides

variable {τ ρ : Type*} {p : HTTPProtocol τ} {q : Bytes}

/-- The members are of the classes that they are declared with. -/
structure Typed (p : HTTPProtocol τ) : Prop where
  requestParser : p.request.parser.isRequest = true
  responseParser : p.response.parser.isRequest = false
  wholeMessages : p.response.parser.parseHeadersOnly = false
  request : p.request.msg.isRequest = true
  response : p.response.msg.isRequest = false

lemma unstarted_updateRequestInfo (m : HTTPMessage) (method : Bytes) (major minor : ℕ) :
    (m.updateRequestInfo method major minor).unstarted = m.unstarted := by
  obtain ⟨kind, line, valid, ch, sup, ds, ma, mi, len, buf, cache, hs, cs, st, hm, hd, ww⟩ := m
  cases kind <;> rfl

lemma unstarted_setStatus (m : HTTPMessage) (code : ℕ) (message : Bytes) :
    ((m.setStatusCode code).setStatusMessage message).unstarted = m.unstarted := by
  obtain ⟨kind, line, valid, ch, sup, ds, ma, mi, len, buf, cache, hs, cs, st, hm, hd, ww⟩ := m
  cases kind <;> rfl

lemma answersHead_updateRequestInfo {m : HTTPMessage} (hm : m.isRequest = false) (method : Bytes)
    (major minor : ℕ) : (m.updateRequestInfo method major minor).answersHead =
      decide (method = requestMethodHead) := by
  obtain ⟨kind, line, valid, ch, sup, ds, ma, mi, len, buf, cache, hs, cs, st, hm', hd, ww⟩ := m
  cases kind with
  | request r => cases hm
  | response r => rfl

/-- The message is a cleared one. -/
lemma unstarted_clear {m : HTTPMessage} (hm : m.isRequest = false) :
    m.clear.unstarted = (HTTPMessage.newResponse []).unstarted := by
  obtain ⟨kind, line, valid, ch, sup, ds, ma, mi, len, buf, cache, hs, cs, st, hm', hd, ww⟩ := m
  cases kind with
  | request r => cases hm
  | response r => rfl

/-- The parser of the responses is fresh. -/
lemma Started.fresh (h : Started p) (ht : Typed p) :
    Fresh p.response p.response.parser.maxContentLength p.response.parser.saveRawHeaders := by
  rcases h with ⟨maxRequest, maxResponse, rawRequest, rawResponse, rfl⟩ | ⟨p₀, rfl⟩
  · exact ⟨rfl, rfl⟩
  · have hparser := reset_core p₀.response.parser
    have hreq : p₀.response.parser.isRequest = false := ht.responseParser
    have honly : p₀.response.parser.parseHeadersOnly = false := ht.wholeMessages
    rw [hreq, honly] at hparser
    refine ⟨hparser, ?_⟩
    have hresponse := ht.response
    show ((p₀.response.msg.clear.setStatusCode 0).setStatusMessage []).unstarted = _
    have hm : ((p₀.response.msg.clear.setStatusCode 0).setStatusMessage []).isRequest = false :=
      hresponse
    cases hk : p₀.response.msg.kind with
    | request r =>
      simp [HTTPMessage.clear, hk, HTTPMessage.setStatusCode, HTTPMessage.setStatusMessage,
        HTTPMessage.isRequest] at hm
    | response r =>
      simp only [HTTPMessage.clear, hk]
      rfl

/-- A parser that starts again is fresh if it has read a response. -/
lemma fresh_restart {s : Session} {max : ℕ} {raw : Bool} (hm : s.msg.isRequest = false)
    (hconfig : s.config = (false, max, false, raw)) : Fresh (restart s) max raw := by
  simp only [config, Prod.mk.injEq] at hconfig
  obtain ⟨hreq, hmax, honly, hraw⟩ := hconfig
  have hparser := reset_core s.parser
  rw [hreq, hmax, honly, hraw] at hparser
  exact ⟨hparser, unstarted_clear hm⟩

/-- Behind some responses 100, the parser is fresh and knows of no request. -/
lemma fresh_behind {s : Session} {max : ℕ} {raw : Bool}
    (hconfig : s.config = (false, max, false, raw)) {rs : List Bytes} (hrs : Continues s rs)
    (hne : rs ≠ []) : Fresh (behind s rs) max raw ∧ (behind s rs).msg.answersHead = false := by
  induction rs generalizing s with
  | nil => exact absurd rfl hne
  | cons r rs ih =>
    obtain ⟨-, hstatus, hrs⟩ := hrs
    have hconfig' : (s.read r).state.config = (false, max, false, raw) :=
      (config_read s r).trans hconfig
    have hm : (s.read r).state.msg.isRequest = false := by
      rw [HTTPMessage.isRequest]
      cases hk : (s.read r).state.msg.kind with
      | request x => simp [getStatusCode, responseData, hk, responseCodeContinue] at hstatus
      | response x => rfl
    by_cases hnil : rs = []
    · subst hnil
      refine ⟨fresh_restart hm hconfig', ?_⟩
      show (s.read r).state.msg.clear.answersHead = false
      cases hk : (s.read r).state.msg.kind with
      | request x => simp [HTTPMessage.clear, hk, HTTPMessage.answersHead]
      | response x =>
        simp only [HTTPMessage.clear, hk]
        show decide (([] : Bytes) = requestMethodHead) = false
        decide +kernel
    · exact ih (s := restart (s.read r).state) hconfig' hrs hnil

/-- The parser of the responses behind a request with a version. -/
lemma Fresh.prepared {max : ℕ} {raw : Bool} (h : Fresh p.response max raw)
    (hversion : (p.request.read q).state.msg.versionMajor ≠ 0) :
    Fresh (prepared p q) max raw ∧ (HTTPProtocol.prepared p q).msg.answersHead =
      decide ((requestData (p.request.read q).state.msg).method = requestMethodHead) := by
  rw [HTTPProtocol.prepared, prepareResponse]
  dsimp only
  rw [if_neg hversion]
  exact ⟨⟨h.parser, (unstarted_updateRequestInfo _ _ _ _).trans h.msg⟩,
    answersHead_updateRequestInfo h.isRequest _ _ _⟩

lemma getStatusCode_eq (m : HTTPMessage) : getStatusCode m = m.statusOf := by
  rw [getStatusCode, responseData, HTTPMessage.statusOf]
  cases m.kind <;> rfl

/-- A parser in the body of a message keeps the head of the message. -/
lemma head_read {s : Session} (hb : s.InBody) (hs : s.Ready) (hw : w ≠ []) :
    (s.read w).state.msg.head = s.msg.head := by
  have hrun := congrArg Scanned.state (run_read hs hw)
  have hmsg : (s.read w).state.msg = (scan dataTurn s w).state.msg :=
    (congrArg Session.msg hrun : (s.read w).state.forget.msg = (scan dataTurn s w).state.forget.msg)
  have hbody : s.markData.InBody := by
    rw [InBody, parser_markData]
    exact hb
  rw [hmsg, scan_dataTurn hs hw, scan_body hbody (ready_markData hs), head_scan_bodyTurn, markData]
  split_ifs <;> rfl

/-- The header of a response that is all content has no status, and announces nothing. -/
lemma Fresh.skipHeaderParsing {max : ℕ} {raw : Bool} (h : Fresh s max raw) :
    (skipHeaderParsing s).msg.statusOf = 0 ∧
      ((HTTPProtocol.skipHeaderParsing s).Ready → (HTTPProtocol.skipHeaderParsing s).InBody) := by
  have hreq : s.parser.isRequest = false :=
    (congrArg HTTPParser.isRequest h.parser : { s.parser with readBuf := [] }.core.isRequest = _)
  have hcode : s.parser.header.statusCode = 0 :=
    (congrArg (fun p => p.header.statusCode) h.parser :
      { s.parser with readBuf := [] }.core.header.statusCode = _)
  have hheaders : s.msg.headers = [] :=
    (congrArg HTTPMessage.headers h.msg : s.msg.unstarted.headers = _)
  have hhead := head_startBody s (framing s.parser.isRequest s.headed)
  rw [← finishHeaderParsing_eq] at hhead
  constructor
  · have hstatus : s.headed.statusOf = 0 := by
      rw [headed, hreq, updateTransferCodingUsingHeader_eq]
      have hkind := h.isRequest
      cases hm : s.msg.kind with
      | request r => simp [HTTPMessage.isRequest, hm] at hkind
      | response r =>
        simp [updateMessageWithHeaderData, HTTPMessage.setStatusCode, HTTPMessage.setStatusMessage,
          hm, HTTPMessage.clearFirstLine, parseCookieHeaders, HTTPMessage.statusOf, hcode]
    exact (HTTPMessage.statusOf_congr hhead).trans hstatus
  · show s.finishHeaderParsing.2.Ready → s.finishHeaderParsing.2.InBody
    rw [finishHeaderParsing_eq]
    intro hready
    cases hf : framing s.parser.isRequest s.headed with
    | empty =>
      rw [hf] at hready
      exact absurd rfl hready.1
    | chunked => exact Or.inl rfl
    | untilEof => exact Or.inr (Or.inr rfl)
    | length n => exact Or.inr (Or.inl rfl)
    | invalidLength =>
      have hnone : s.headed.headers.find headerContentLength = none := by
        rw [headers_headed, hheaders]
        rfl
      rw [framing, hnone] at hf
      dsimp only at hf
      split_ifs at hf

/-- Without a version in the request there are no responses 100: all of the response is content. -/
lemma Fresh.continues_nil {max : ℕ} {raw : Bool} (h : Fresh p.response max raw)
    (hreader : Reader (HTTPProtocol.prepared p q))
    (hversion : (p.request.read q).state.msg.versionMajor = 0) {rs : List Bytes}
    (hrs : Continues (HTTPProtocol.prepared p q) rs) : rs = [] := by
  cases rs with
  | nil => rfl
  | cons r rs =>
    obtain ⟨hr, hstatus, -⟩ := hrs
    have hready := hreader.ready_of_rest hr.ne_nil hr.rest
    rw [HTTPProtocol.prepared, prepareResponse] at hstatus hready
    dsimp only at hstatus hready
    rw [if_pos hversion] at hstatus hready
    generalize hu : ({ p.response with
      msg := ((p.response.msg.updateRequestInfo _ _ _).setStatusCode 0).setStatusMessage [] } :
        Session) = u at hstatus hready
    have hfresh : Fresh u max raw := by
      subst hu
      exact ⟨h.parser, (unstarted_setStatus _ _ _).trans
        ((unstarted_updateRequestInfo _ _ _ _).trans h.msg)⟩
    obtain ⟨hzero, hbody⟩ := hfresh.skipHeaderParsing
    rw [getStatusCode_eq, HTTPMessage.statusOf_congr (head_read (hbody hready) hready hr.ne_nil),
      hzero] at hstatus
    cases hstatus

end Sides

/-! ### Events -/

section Events

variable {τ ρ : Type*} {p p' : HTTPProtocol τ}

/-- The protocols agree in the request, and in what is seen of the response. -/
structure AgreeUntold (p p' : HTTPProtocol τ) : Prop where
  request : Same p.request p'.request
  response : SameResponse p.response p'.response

variable [LT τ] [DecidableLT τ]

/-- What comes of a run, without the counters. -/
def shown (extract : HTTPMessage → HTTPMessage → ρ)
    (x : HTTPProtocol τ × List (ProtocolEvent τ ρ)) :
    List (ProtocolEvent τ ρ) × (Bool → Bool → Bool × Option (ProtocolEvent τ ρ)) :=
  (x.2.map ProtocolEvent.contents, fun clientReset serverReset =>
    (close extract clientReset serverReset x.1).map id (Option.map ProtocolEvent.contents))

variable {extract : HTTPMessage → HTTPMessage → ρ}
  (hextract : ∀ q r, extract q r.untold = extract q r)
include hextract

lemma AgreeUntold.generateEvent (h : AgreeUntold p p') :
    (generateEvent extract p).contents = (HTTPProtocol.generateEvent extract p').contents := by
  have hresponse := h.response.msg
  have hdata : ∀ m : HTTPMessage, getStatusCode m = getStatusCode m.untold ∧
      (responseData m).statusMessage = (responseData m.untold).statusMessage := by
    intro m
    obtain ⟨kind, line, valid, ch, sup, ds, ma, mi, len, buf, cache, hs, cs, st, hm, hd, ww⟩ := m
    cases kind <;> exact ⟨rfl, rfl⟩
  have hcode : getStatusCode p.response.msg = getStatusCode p'.response.msg := by
    rw [(hdata _).1, hresponse, ← (hdata _).1]
  have hmessage : (responseData p.response.msg).statusMessage =
      (responseData p'.response.msg).statusMessage := by
    rw [(hdata _).2, hresponse, ← (hdata _).2]
  have hstatus : p.response.msg.status = p'.response.msg.status :=
    (congrArg HTTPMessage.status hresponse :
      p.response.msg.untold.status = p'.response.msg.untold.status)
  have hextracted : ∀ q, extract q p.response.msg = extract q p'.response.msg := by
    intro q
    rw [← hextract, hresponse, hextract]
  simp only [ProtocolEvent.contents, ProtocolEvent.fields, HTTPProtocol.generateEvent, h.request.msg,
    h.request.rawHeaders, h.response.rawHeaders, hcode, hmessage, hstatus, hextracted]

lemma AgreeUntold.close (h : AgreeUntold p p') (clientReset serverReset : Bool) :
    (close extract clientReset serverReset p).map id (Option.map ProtocolEvent.contents) =
      (HTTPProtocol.close extract clientReset serverReset p').map id
        (Option.map ProtocolEvent.contents) := by
  have hfinished : AgreeUntold
      { p with request := finishMessage p.request, response := finishMessage p.response }
      { p' with request := finishMessage p'.request, response := finishMessage p'.response } :=
    ⟨h.request.finishMessage, h.response.finishMessage⟩
  have hevent := hfinished.generateEvent hextract
  have hrequest : (finishMessage p.request).msg = (finishMessage p'.request).msg :=
    h.request.finishMessage.msg
  have hvalid : (finishMessage p.response).msg.isValid = (finishMessage p'.response).msg.isValid :=
    (congrArg HTTPMessage.isValid h.response.finishMessage.msg :
      (finishMessage p.response).msg.untold.isValid =
        (finishMessage p'.response).msg.untold.isValid)
  have htotal : totalBytes (finishMessage p.request) = totalBytes (finishMessage p'.request) :=
    h.request.finishMessage.total
  rw [HTTPProtocol.close, HTTPProtocol.close]
  dsimp only
  rw [hrequest, hvalid, htotal]
  split_ifs
  · rfl
  · exact congrArg (fun e => (true, some e)) hevent
  · exact congrArg (fun e : ProtocolEvent τ ρ => (true, some { e with canceled := true })) hevent
  · exact congrArg (fun e : ProtocolEvent τ ρ => (true, some { e with refused := true })) hevent
  · exact congrArg (fun e => (false, some e)) hevent

lemma AgreeUntold.shown (h : AgreeUntold p p') {es es' : List (ProtocolEvent τ ρ)}
    (hes : es.map ProtocolEvent.contents = es'.map ProtocolEvent.contents) :
    shown extract (p, es) = HTTPProtocol.shown extract (p', es') :=
  Prod.ext hes (funext fun clientReset => funext fun serverReset =>
    h.close hextract clientReset serverReset)

omit hextract in
lemma AgreeUntold.cacheFirstLine (h : AgreeUntold p p') :
    AgreeUntold (cacheFirstLine p) (HTTPProtocol.cacheFirstLine p') where
  request := h.request.setMsg fun m => m.getFirstLine.2
  response := by
    show SameResponse (saneTimes p).response (saneTimes p').response
    rw [saneTimes_response, saneTimes_response]
    exact h.response

/-- What comes of a final response that is read alike. -/
lemma AgreeUntold.concluded (h : AgreeUntold p p') {x x' : Scanned Byte Session Tribool}
    (hresult : x.result = x'.result) (es : List (ProtocolEvent τ ρ)) :
    HTTPProtocol.shown extract (concluded extract x es p) =
      HTTPProtocol.shown extract (HTTPProtocol.concluded extract x' es p') := by
  rw [HTTPProtocol.concluded, HTTPProtocol.concluded, hresult]
  split_ifs
  · exact h.shown hextract rfl
  · refine h.cacheFirstLine.shown hextract ?_
    rw [List.map_append, List.map_append, List.map_singleton, List.map_singleton,
      h.generateEvent hextract]

end Events

/-! ### Runs -/

section Runs

variable {τ ρ : Type*} [LT τ] [DecidableLT τ] (extract : HTTPMessage → HTTPMessage → ρ)
  {p : HTTPProtocol τ}

/-- The packets of the responses 100, none of which goes on behind the end of one. -/
lemma run_continues {s : Session} (hs : Same p.response s) (hs' : Reader s) {rs : List Bytes}
    (hrs : Continues s rs) {pieces : List Bytes} (hpieces : ∀ w ∈ pieces, w ≠ [])
    (hflatten : pieces.flatten = rs.flatten) (hlossless : Lossless rs pieces)
    {ks : List (Packet τ)} (hks : Carries false ks pieces) (es : List (ProtocolEvent τ ρ)) :
    ∃ p', run (step extract) (p, es) ks = some (p', es) ∧ p'.request = p.request ∧
      Same p'.response (behind s rs) := by
  induction rs generalizing p s pieces ks with
  | nil =>
    have hnil : pieces = [] := by
      rw [List.eq_nil_iff_forall_not_mem]
      intro w hw
      exact hpieces w hw (List.flatten_eq_nil_iff.1 hflatten w hw)
    subst hnil
    obtain rfl : ks = [] := by simpa [Carries] using hks
    exact ⟨p, rfl, rfl, hs⟩
  | cons r rs ih =>
    obtain ⟨hr, hstatus, hrs⟩ := hrs
    have hlen := congrArg List.length hflatten
    rw [List.flatten_cons, List.length_append] at hlen
    obtain ⟨a, w, b, rfl, hlt, hle⟩ :=
      split_pieces (List.length_pos_iff.2 hr.ne_nil) (by omega : r.length ≤ pieces.flatten.length)
    have heq : (a ++ [w]).flatten.length = r.length := by
      by_contra hne
      exact hlossless a w b rfl ⟨r.length, endsAt_head r rs, hlt, by omega⟩
    have hsplit : a ++ w :: b = a ++ [w] ++ b := by simp
    rw [hsplit] at hks hpieces hflatten hlossless
    rw [List.flatten_append, List.flatten_cons] at hflatten
    obtain ⟨hfirst, hrest⟩ := List.append_inj hflatten heq
    obtain ⟨ks₁, ks₂, rfl, hks₁, hks₂⟩ := carries_append hks
    obtain ⟨u, hu, hrequest, hsame⟩ := run_continue extract hs hs' hr hstatus
      (fun v hv => hpieces v (List.mem_append_left b hv)) (hfirst ▸ List.prefix_refl _) hlt hks₁ es
    obtain ⟨p', hp', hrequest', hsame'⟩ := ih hsame (reader_restart _) hrs
      (fun v hv => hpieces v (List.mem_append_right _ hv)) hrest (hlossless.tail heq) hks₂
    refine ⟨p', ?_, hrequest'.trans hrequest, hsame'⟩
    rw [run_append, hu, Option.bind_some, hp']

/-- The first packets of the final response. -/
lemma run_final_take {s : Session} (hs : Same p.response s) (hs' : Reader s) {w : Bytes}
    (hw : Final s w) {ks : List (Packet τ)} {pieces : List Bytes} (hpieces : ∀ u ∈ pieces, u ≠ [])
    (hflatten : pieces.flatten = w) (hks : Carries false ks pieces) {n : ℕ} (hn : n < ks.length)
    (es : List (ProtocolEvent τ ρ)) :
    ∃ p', run (step extract) (p, es) (ks.take n) = some (p', es) := by
  have hlength : ks.length = pieces.length := by
    have := congrArg List.length hks
    simpa using this
  have htake : Carries false (ks.take n) (pieces.take n) := by
    rw [Carries, List.map_take, List.map_take, show ks.map _ = pieces.map _ from hks]
  have hsplit : (pieces.take n).flatten ++ (pieces.drop n).flatten = w := by
    rw [← List.flatten_append, List.take_append_drop, hflatten]
  have hne : (pieces.drop n).flatten ≠ [] := by
    intro hnil
    have hlt : n < pieces.length := hlength ▸ hn
    have hmem : pieces[n] ∈ pieces.drop n := by
      rw [List.drop_eq_getElem_cons hlt]
      exact List.mem_cons_self
    exact hpieces _ (List.mem_of_mem_drop hmem) (List.flatten_eq_nil_iff.1 hnil _ hmem)
  have hready := hs'.ready_of_rest hw.ne_nil hw.rest
  have hrest : (scan dataTurn s ((pieces.take n).flatten ++ (pieces.drop n).flatten)).rest = [] := by
    rw [hsplit]
    exact (congrArg Scanned.rest (run_read hready hw.ne_nil)).symm.trans hw.rest
  have hall := readAll_forget hs hready fun u (hu : u ∈ pieces.take n) =>
    hpieces u (List.mem_of_mem_take hu)
  have hopen : (readAll p.response (pieces.take n)).result = none :=
    (congrArg Scanned.result hall).trans (scan_prefix_none hne hrest)
  obtain ⟨p', hrun, -⟩ := run_open (p := p) extract htake hopen es
  exact ⟨p', hrun⟩

/-- Without a result there is no event. -/
lemma run_unfinished {ks : List (Packet τ)} {pieces : List Bytes} (hks : Carries false ks pieces)
    (h : (readAll p.response pieces).result ≠ some .yes) {es : List (ProtocolEvent τ ρ)}
    {x : HTTPProtocol τ × List (ProtocolEvent τ ρ)} (hrun : run (step extract) (p, es) ks = some x) :
    x.2 = es := by
  induction pieces generalizing p ks with
  | nil =>
    obtain rfl : ks = [] := by simpa [Carries] using hks
    obtain rfl := Option.some.inj hrun
    rfl
  | cons w pieces ih =>
    obtain ⟨ks₁, ks', rfl, hone, hks'⟩ := carries_append (a := [w]) hks
    obtain ⟨k, rfl, hk⟩ := carries_singleton hone
    rw [List.singleton_append, run_cons] at hrun
    cases hr : (p.response.read w).result with
    | none =>
      have hall : readAll p.response (w :: pieces) =
          ⟨(readAll (p.response.read w).state pieces).result,
            (p.response.read w).rest ++ (readAll (p.response.read w).state pieces).rest,
            (readAll (p.response.read w).state pieces).state⟩ := feedAll_none hr pieces
      rw [hall] at h
      obtain ⟨u, hu, hside, -⟩ := step_open (p := p) extract hk hr es
      have hresponse : u.response = (p.response.read w).state := hside
      rw [hu, Option.bind_some] at hrun
      exact ih hks' (hresponse ▸ h) hrun
    | some rc =>
      have hall : readAll p.response (w :: pieces) =
          ⟨some rc, (p.response.read w).rest ++ pieces.flatMap id, (p.response.read w).state⟩ :=
        feedAll_some hr pieces
      rw [hall] at h
      obtain ⟨request, data, dataTime, ackTime⟩ := k
      obtain ⟨rfl, rfl⟩ := Prod.mk.inj hk
      have hno : (p.response.setReadBuffer w).parse.1 = .no := by
        have hknown : known (p.response.setReadBuffer w).parse.1 = some rc := hr
        cases hrc : (p.response.setReadBuffer w).parse.1 with
        | no => rfl
        | yes =>
          rw [hrc] at hknown
          exact absurd hknown.symm h
        | indeterminate =>
          rw [hrc] at hknown
          cases hknown
      simp [step, readNext, parsePacket, hno] at hrun

/-- The responses 100 leave no trace: behind any number of packets of the final response there are
the same events, and in the end the protocol makes the same of the exchange. -/
def Transparent (p : HTTPProtocol τ) (requests continues finals : List (Packet τ)) : Prop :=
  (∀ n, (run (step extract) (p, []) (requests ++ continues ++ finals.take n)).map
      (fun x => x.2.map ProtocolEvent.contents) =
    (run (step extract) (p, []) (requests ++ finals.take n)).map
      fun x => x.2.map ProtocolEvent.contents) ∧
  (run (step extract) (p, []) (requests ++ continues ++ finals)).map (shown extract) =
    (run (step extract) (p, []) (requests ++ finals)).map (shown extract)

lemma FinalResponse.of_readsAlike {s s' : Session} {w : Bytes} (hw : FinalResponse s w)
    (h : ReadsAlike s s' w) : Final s' w where
  ne_nil := hw.ne_nil
  rest := h.rest ▸ hw.rest
  result := by
    have hstatus := framesStatus_untold h.state.msg
    rw [← h.result, ← hstatus]
    exact hw.final.result

section Exchange

variable {extract} {u v : HTTPProtocol τ} {s s' : Session} {w : Bytes}
  (hs : Same u.response s) (hreader : Reader s) (hs' : Same v.response s') (hreader' : Reader s')
  (hrequest : v.request = u.request) (hvalid : u.request.msg.isValid = true)
  (hw : FinalResponse s w) {ks : List (Packet τ)} {pieces : List Bytes}
  (hpieces : ∀ u ∈ pieces, u ≠ []) (hflatten : pieces.flatten = w) (hks : Carries false ks pieces)
include hs hreader hs' hreader' hrequest hvalid hw hpieces hflatten hks

/-- A final response that is read alike makes the same events. -/
lemma events_of_readsAlike (hextract : ∀ q r, extract q r.untold = extract q r)
    (h : ReadsAlike s s' w) :
    (∀ n, (run (step extract) (v, []) (ks.take n)).map (fun x => x.2.map ProtocolEvent.contents) =
      (run (step extract) (u, []) (ks.take n)).map fun x => x.2.map ProtocolEvent.contents) ∧
    (run (step extract) (v, []) ks).map (shown extract) =
      (run (step extract) (u, []) ks).map (shown extract) := by
  have hw' := hw.of_readsAlike h
  obtain ⟨p₀, hrun, hrequest₀, hsame⟩ := run_final extract hs hreader hw.final hvalid hpieces
    hflatten hks []
  obtain ⟨p₁, hrun', hrequest₁, hsame'⟩ := run_final extract hs' hreader' hw' (hrequest ▸ hvalid)
    hpieces hflatten hks []
  have hagree : AgreeUntold p₁ p₀ := by
    refine ⟨Same.of_eq (hrequest₁.trans (hrequest.trans hrequest₀.symm)), ?_⟩
    exact (SameResponse.of_forget hsame'.forget).trans
      (h.state.symm.trans (SameResponse.of_forget hsame.forget).symm)
  have hshown : (run (step extract) (v, []) ks).map (shown extract) =
      (run (step extract) (u, []) ks).map (shown extract) := by
    rw [hrun, hrun', Option.map_some, Option.map_some, hagree.concluded hextract h.result.symm]
  refine ⟨fun n => ?_, hshown⟩
  by_cases hn : n < ks.length
  · obtain ⟨p₂, hrun₂⟩ := run_final_take extract hs hreader hw.final hpieces hflatten hks hn []
    obtain ⟨p₃, hrun₃⟩ := run_final_take extract hs' hreader' hw' hpieces hflatten hks hn []
    rw [hrun₂, hrun₃]
    rfl
  · rw [List.take_of_length_le (Nat.le_of_not_lt hn)]
    have hevents := congrArg (Option.map Prod.fst) hshown
    rw [Option.map_map, Option.map_map] at hevents
    exact hevents

omit hs' hreader' hrequest in
/-- A final response that only one of the parsers finds complete makes one event or none. -/
lemma events_ne (hs' : Same v.response s') (hready : s'.Ready)
    (hyes : (s.read w).result = some .yes) (hopen : (s'.read w).result ≠ some .yes) :
    (run (step extract) (v, []) ks).map (shown extract) ≠
      (run (step extract) (u, []) ks).map (shown extract) := by
  intro heq
  obtain ⟨p₀, hrun, -, -⟩ := run_final extract hs hreader hw.final hvalid hpieces hflatten hks []
  rw [hrun, Option.map_some, concluded, if_neg (by rw [hyes]; simp), Option.map_eq_some_iff] at heq
  obtain ⟨x, hx, hshown⟩ := heq
  have hall := congrArg Scanned.result (readAll_forget hs' hready hpieces)
  have hone := congrArg Scanned.result (run_read hready hw.ne_nil)
  rw [hflatten] at hall
  have hresult : (readAll v.response pieces).result = (s'.read w).result := hall.trans hone.symm
  have hnil := run_unfinished extract hks (hresult ▸ hopen) hx
  have hevents : x.2.map ProtocolEvent.contents = _ := congrArg Prod.fst hshown
  rw [hnil] at hevents
  cases hevents

end Exchange

/-- The responses 100 in front of a final response leave no trace, if no packet goes on behind the
end of one, exactly if the method is not `HEAD` or the final response frames itself. -/
theorem continue_transparent (hp : Started p) (ht : Typed p)
    (hextract : ∀ q r, extract q r.untold = extract q r) {q final : Bytes} {rs : List Bytes}
    (hq : Complete p.request q) (hrs : Continues (prepared p q) rs)
    (hfinal : FinalResponse (prepared p q) final)
    {requestPieces continuePieces finalPieces : List Bytes}
    (hrequest : requestPieces.flatten = q) (hcontinue : continuePieces.flatten = rs.flatten)
    (hflatten : finalPieces.flatten = final)
    (hpieces : ∀ w ∈ requestPieces ++ continuePieces ++ finalPieces, w ≠ [])
    (hlossless : Lossless rs continuePieces) {requests continues finals : List (Packet τ)}
    (hrequests : Carries true requests requestPieces)
    (hcontinues : Carries false continues continuePieces)
    (hfinals : Carries false finals finalPieces) :
    Transparent extract p requests continues finals ↔
      rs = [] ∨ (requestData (p.request.read q).state.msg).method ≠ requestMethodHead ∨
        ((prepared p q).read final).state.msg.FramesItself := by
  obtain ⟨⟨hst, htotal⟩, -⟩ := hp.parsers
  have hreader := hp.reader_prepared q
  have hfresh := hp.fresh ht
  have hvalid := isValid_of_read hq.result
  have hall : ∀ w ∈ requestPieces, w ≠ [] := fun w hw =>
    hpieces w (List.mem_append_left _ (List.mem_append_left _ hw))
  have hall' : ∀ w ∈ continuePieces, w ≠ [] := fun w hw =>
    hpieces w (List.mem_append_left _ (List.mem_append_right _ hw))
  have hall'' : ∀ w ∈ finalPieces, w ≠ [] := fun w hw => hpieces w (List.mem_append_right _ hw)
  obtain ⟨u, hu, hsame, hprepared⟩ := run_request extract hq (reader_of_start hst htotal) hall
    hrequest hrequests []
  have hvalid' : u.request.msg.isValid = true := hsame.msg ▸ hvalid
  obtain ⟨v, hv, hrequestv, hsamev⟩ := run_continues extract (Same.of_eq hprepared) hreader hrs hall'
    hcontinue hlossless hcontinues []
  have hruns : ∀ ks : List (Packet τ),
      run (step extract) (p, []) (requests ++ continues ++ ks) = run (step extract) (v, []) ks ∧
        run (step extract) (p, []) (requests ++ ks) = run (step extract) (u, []) ks := by
    intro ks
    rw [run_append, run_append, run_append, hu, Option.bind_some, Option.bind_some, hv]
    exact ⟨rfl, rfl⟩
  rw [Transparent, (hruns finals).1, (hruns finals).2]
  simp only [hruns]
  by_cases hnil : rs = []
  · -- there is no packet before those of the final response
    subst hnil
    have hempty : continuePieces = [] := by
      rw [List.eq_nil_iff_forall_not_mem]
      intro w hw
      exact hall' w hw (List.flatten_eq_nil_iff.1 hcontinue w hw)
    subst hempty
    obtain rfl : continues = [] := by simpa [Carries] using hcontinues
    obtain rfl : u = v := congrArg Prod.fst (Option.some.inj hv)
    exact iff_of_true ⟨fun _ => rfl, rfl⟩ (Or.inl rfl)
  · have hversion : (p.request.read q).state.msg.versionMajor ≠ 0 := fun hversion =>
      hnil (hfresh.continues_nil hreader hversion hrs)
    obtain ⟨hfresh', hhead⟩ := hfresh.prepared hversion
    have hconfig : (prepared p q).config = (false, p.response.parser.maxContentLength, false,
        p.response.parser.saveRawHeaders) := by
      rw [prepared, prepareResponse]
      dsimp only
      rw [if_neg hversion, config, ht.responseParser, ht.wholeMessages]
    obtain ⟨hbehind, hother⟩ := fresh_behind hconfig hrs hnil
    have halike := events_of_readsAlike (Same.of_eq hprepared) hreader hsamev hbehind.reader
      hrequestv hvalid' hfinal hall'' hflatten hfinals hextract
    rw [or_iff_right hnil]
    by_cases hmethod : (requestData (p.request.read q).state.msg).method = requestMethodHead
    · rw [or_iff_right (not_not.2 hmethod)]
      rw [decide_eq_true hmethod] at hhead
      obtain ⟨hframes, hlost⟩ := hfinal.answersHead hfresh' hbehind hhead hother
      refine ⟨fun htransparent => ?_, fun h => halike (hframes h)⟩
      by_contra hframed
      obtain ⟨hyes, hopen⟩ := hlost hframed
      have hready := hbehind.reader.ready (by rw [hbehind.parseStart.1]; simp)
      exact events_ne (Same.of_eq hprepared) hreader hvalid' hfinal hall'' hflatten hfinals hsamev
        hready hyes hopen htransparent.2
    · refine iff_of_true (halike (hfinal.readsAlike hfresh' hbehind ?_)) (Or.inl hmethod)
      rw [hhead, hother, decide_eq_false hmethod]

end Runs

/-! ### A response to `HEAD` -/

lemma typed_smallProtocol : Typed smallProtocol := ⟨rfl, rfl, rfl, rfl, rfl⟩

/-- A request with `POST`: its response 100 leaves no trace. -/
theorem continue_transparent_post : Transparent (fun _ _ => ()) smallProtocol
    (packets true [smallRequest]) (packets false [smallContinue]) (packets false [smallFinal]) := by
  have hfinal : FinalResponse (prepared smallProtocol smallRequest) smallFinal :=
    ⟨by decide +kernel, by decide +kernel, by decide +kernel⟩
  refine (continue_transparent _ started_smallProtocol typed_smallProtocol (fun _ _ => rfl)
    exchange_small.request exchange_small.continues hfinal (List.flatten_singleton) rfl
    (List.flatten_singleton) (by decide +kernel) ?_ (carries_packets true _)
    (carries_packets false _) (carries_packets false _)).2 (Or.inr (Or.inl (by decide +kernel)))
  exact Lossless.cons (c := [smallContinue]) (by decide +kernel) (lossless_nil [])

def headRequest : Bytes := ascii "HEAD / HTTP/1.1\r\n\r\n"

def headFinal : Bytes := ascii "HTTP/1.1 200 OK\r\nContent-Length: 2\r\n\r\n"

/-- Behind a response 100 the final response to `HEAD` waits for content that does not come: there
is no event, as opposed to one event without the response 100. -/
theorem continue_not_transparent :
    Started smallProtocol ∧ Typed smallProtocol ∧ Complete smallProtocol.request headRequest ∧
      Continues (prepared smallProtocol headRequest) [smallContinue] ∧
      FinalResponse (prepared smallProtocol headRequest) headFinal ∧
      ¬ Transparent (fun _ _ => ()) smallProtocol (packets true [headRequest])
        (packets false [smallContinue]) (packets false [headFinal]) := by
  refine ⟨started_smallProtocol, typed_smallProtocol,
    ⟨by decide +kernel, by decide +kernel, by decide +kernel⟩,
    ⟨⟨by decide +kernel, by decide +kernel, by decide +kernel⟩, by decide +kernel, trivial⟩,
    ⟨by decide +kernel, by decide +kernel, by decide +kernel⟩, fun h => ?_⟩
  have hevents := congrArg (Option.map fun y => y.1.length) h.2
  exact absurd hevents (by decide +kernel)

end HTTPProtocol

end PionCore.Platform
