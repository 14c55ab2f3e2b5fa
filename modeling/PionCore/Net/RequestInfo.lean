/-
# What a response knows of its request

A response gets to know the method and the version of the request.  The header machine and the
machines of the body do not look at them, nor at the status that the message had before its own
status line (`scan_told`): only where the header ends does the method decide, for `HEAD`, that
there is no content.
-/
import PionCore.Net.HTTPReader
import PionCore.Net.Reset

namespace PionCore.Net

open PionCore.Lib

/-! ### Responses without their request -/

/-- A response that has not been told of a request. -/
def MessageKind.untold : MessageKind → MessageKind
  | .request r => .request r
  | .response r => .response { r with requestMethod := [] }

/-- A response without its status line. -/
def MessageKind.unstarted : MessageKind → MessageKind
  | .request r => .request r
  | .response _ => .response ⟨0, [], []⟩

namespace HTTPMessage

/-- A message without what `updateRequestInfo` sets, and without the ghost member. -/
def untold (m : HTTPMessage) : HTTPMessage :=
  { m with kind := m.kind.untold, chunksSupported := false, wildWrite := false }

/-- A message without its status line as well. -/
def unstarted (m : HTTPMessage) : HTTPMessage :=
  { m with kind := m.kind.unstarted, chunksSupported := false, wildWrite := false, firstLine := [] }

lemma untold_untold (m : HTTPMessage) : m.untold.untold = m.untold := by
  obtain ⟨kind, line, valid, ch, sup, ds, ma, mi, len, buf, cache, hs, cs, st, hm, hd, ww⟩ := m
  cases kind <;> rfl

lemma untold_parsePostContent (b : Bool) (m : HTTPMessage) :
    (parsePostContent b m.untold).untold = (parsePostContent b m).untold := by
  obtain ⟨kind, line, valid, ch, sup, ds, ma, mi, len, buf, cache, hs, cs, st, hm, hd, ww⟩ := m
  have hsame : (HTTPMessage.mk kind line valid ch sup ds ma mi len buf cache hs cs st hm hd
      ww).untold.getHeader headerContentType = (HTTPMessage.mk kind line valid ch sup ds ma mi len
      buf cache hs cs st hm hd ww).getHeader headerContentType := rfl
  unfold parsePostContent
  rw [hsame]
  split_ifs <;> cases kind <;> rfl

lemma untold_createContentBuffer (m : HTTPMessage) :
    m.untold.createContentBuffer.untold = m.createContentBuffer.untold := by
  obtain ⟨kind, line, valid, ch, sup, ds, ma, mi, len, buf, cache, hs, cs, st, hm, hd, ww⟩ := m
  cases kind <;> rfl

lemma untold_updateMessageWithHeaderData_untold (b : Bool) (p : HeaderMachine) (m : HTTPMessage) :
    (updateMessageWithHeaderData b p m.untold).untold =
      (updateMessageWithHeaderData b p m).untold := by
  obtain ⟨kind, line, valid, ch, sup, ds, ma, mi, len, buf, cache, hs, cs, st, hm, hd, ww⟩ := m
  cases kind <;> cases b <;>
    simp only [updateMessageWithHeaderData, Bool.false_eq_true, if_false, if_true] <;>
    (try split_ifs) <;> rfl

/-- The status of the data, and the pairs of a form, do not depend on the request. -/
lemma untold_complete (b : Bool) {m m' : HTTPMessage} (h : m.untold = m'.untold) :
    (parsePostContent b (computeMsgStatus m m.isValid)).untold =
      (parsePostContent b (computeMsgStatus m' m'.isValid)).untold := by
  have hvalid : m.isValid = m'.isValid :=
    (congrArg HTTPMessage.isValid h : m.untold.isValid = m'.untold.isValid)
  have hstatus : (computeMsgStatus m m'.isValid).untold = (computeMsgStatus m' m'.isValid).untold :=
    (congrArg (fun m => computeMsgStatus m m'.isValid) h :
      computeMsgStatus m.untold m'.isValid = computeMsgStatus m'.untold m'.isValid)
  rw [hvalid, ← untold_parsePostContent, hstatus, untold_parsePostContent]

/-- The end of the connection does not depend on the request. -/
lemma untold_finish (p : HTTPParser) (m : HTTPMessage) :
    (finish p m.untold).untold = (finish p m).untold := by
  rw [finish, finish]
  cases p.messageParseState with
  | parseStart =>
    obtain ⟨kind, line, valid, ch, sup, ds, ma, mi, len, buf, cache, hs, cs, st, hm, hd, ww⟩ := m
    cases kind <;> rfl
  | parseHeaders =>
    refine untold_complete p.isRequest ?_
    have hdata := untold_updateMessageWithHeaderData_untold p.isRequest p.header
      { m with isValid := false }
    rw [← untold_createContentBuffer]
    refine Eq.trans ?_ (untold_createContentBuffer _)
    exact congrArg (fun m : HTTPMessage =>
      ({ m with contentLength := 0 } : HTTPMessage).createContentBuffer.untold) hdata
  | parseContent =>
    refine untold_complete p.isRequest ?_
    exact congrArg (fun m : HTTPMessage => { m with
      isValid := false
      contentLength :=
        if p.bytesContentRead < p.maxContentLength then p.bytesContentRead
        else m.contentLength }) m.untold_untold
  | parseContentNoLength =>
    refine untold_complete p.isRequest ?_
    obtain ⟨kind, line, valid, ch, sup, ds, ma, mi, len, buf, cache, hs, cs, st, hm, hd, ww⟩ := m
    cases kind <;> rfl
  | parseChunks =>
    refine untold_complete p.isRequest ?_
    obtain ⟨kind, line, valid, ch, sup, ds, ma, mi, len, buf, cache, hs, cs, st, hm, hd, ww⟩ := m
    cases kind <;> rfl
  | parseEnd =>
    refine untold_complete p.isRequest ?_
    exact congrArg (fun m : HTTPMessage => { m with isValid := true }) m.untold_untold

/-- The header line of a response overwrites the status. -/
lemma untold_updateMessageWithHeaderData (p : HeaderMachine) {m m' : HTTPMessage}
    (h : m.unstarted = m'.unstarted) (hm : m.isRequest = false) :
    (updateMessageWithHeaderData false p m).untold =
      (updateMessageWithHeaderData false p m').untold := by
  obtain ⟨kind, line, valid, ch, sup, ds, ma, mi, len, buf, cache, hs, cs, st, hm, hd, ww⟩ := m
  obtain ⟨kind', line', valid', ch', sup', ds', ma', mi', len', buf', cache', hs', cs', st', hm',
    hd', ww'⟩ := m'
  cases kind with
  | request r => cases hm
  | response r =>
    cases kind' with
    | request r' => simp [unstarted, MessageKind.unstarted] at h
    | response r' =>
      simp only [unstarted, HTTPMessage.mk.injEq, true_and, and_true] at h
      obtain ⟨-, rfl, rfl, rfl, rfl, rfl, rfl, rfl, rfl, rfl, rfl, rfl, rfl, rfl⟩ := h
      rfl

lemma unstarted_updateTransferCodingUsingHeader (m : HTTPMessage) :
    m.unstarted.updateTransferCodingUsingHeader.unstarted =
      m.updateTransferCodingUsingHeader.unstarted := by
  have hsame : m.unstarted.headers = m.headers := rfl
  unfold updateTransferCodingUsingHeader
  rw [hsame]
  obtain ⟨kind, line, valid, ch, sup, ds, ma, mi, len, buf, cache, hs, cs, st, hm, hd, ww⟩ := m
  split <;> cases kind <;> rfl

end HTTPMessage

/-- The header machine does not look at the status line. -/
lemma parseHeadersSwitch_unstarted (isRequest : Bool) (h : HeaderMachine) (m : HTTPMessage)
    (c : Byte) :
    (parseHeadersSwitch isRequest h m.unstarted c).map (Prod.map id HTTPMessage.unstarted) =
      (parseHeadersSwitch isRequest h m c).map (Prod.map id HTTPMessage.unstarted) := by
  obtain ⟨st, code, message, method, resource, query, raw, name, value⟩ := h
  obtain ⟨kind, line, valid, ch, sup, ds, ma, mi, len, buf, cache, hs, cs, sta, hm, hd, ww⟩ := m
  cases st <;> simp only [parseHeadersSwitch, parseHeaderNameStart, parseHttpLetter] <;>
    (try split_ifs) <;> cases kind <;> rfl

namespace Session

/-- A session whose message has not been told of a request. -/
def untold (s : Session) : Session := { s with msg := s.msg.untold, ec := .success }

lemma startBody_untold {s s' : Session} (hparser : s.parser = s'.parser)
    (h : s.headed.untold = s'.headed.untold) (f : Framing) :
    (s.startBody f).map id untold = (s'.startBody f).map id untold := by
  have hbuffer : ∀ g : HTTPMessage → HTTPMessage, (∀ m, (g m.untold).untold = (g m).untold) →
      (g s.headed).createContentBuffer.untold = (g s'.headed).createContentBuffer.untold := by
    intro g hg
    rw [← HTTPMessage.untold_createContentBuffer, ← hg, h, hg,
      HTTPMessage.untold_createContentBuffer]
  have hall : ∀ g : HTTPMessage → HTTPMessage, (∀ m, (g m.untold).untold = (g m).untold) →
      ∀ p : HTTPParser, ∀ ec ec', untold ⟨p, (g s.headed).createContentBuffer, ec⟩ =
        untold ⟨p, (g s'.headed).createContentBuffer, ec'⟩ := by
    intro g hg p ec ec'
    exact congrArg (fun m => Session.mk p m .success) (hbuffer g hg)
  cases f with
  | chunked =>
    simp only [startBody, bodyFollows, hparser]
    exact Prod.ext rfl (hall id HTTPMessage.untold_untold _ _ _)
  | empty =>
    simp only [startBody, hparser]
    exact Prod.ext rfl (hall id HTTPMessage.untold_untold _ _ _)
  | invalidLength =>
    simp only [startBody, hparser]
    exact congrArg (fun m => (Tribool.no, Session.mk _ m .success)) h
  | length n =>
    simp only [startBody, bodyFollows, hparser]
    exact Prod.ext rfl (hall (fun m => { m with contentLength := min n s'.parser.maxContentLength })
      (fun m => congrArg (fun m : HTTPMessage =>
        { m with contentLength := min n s'.parser.maxContentLength }) m.untold_untold) _ _ _)
  | untilEof =>
    simp only [startBody, bodyFollows, hparser]
    exact Prod.ext rfl (hall (fun m => { m with chunkCache := [] })
      (fun m => congrArg (fun m : HTTPMessage => { m with chunkCache := [] }) m.untold_untold)
      _ _ _)

lemma concludes_untold : Concludes untold := by
  intro rc s
  cases rc with
  | yes =>
    have hmsg : (conclude .yes s.untold).2.msg.untold = (conclude .yes s).2.msg.untold :=
      HTTPMessage.untold_parsePostContent s.parser.isRequest
        (computeMsgStatus { s.msg with isValid := true } true)
    exact congrArg (fun m => (Tribool.yes,
      Session.mk { s.parser with messageParseState := .parseEnd } m .success)) hmsg
  | no =>
    exact congrArg (fun m => (Tribool.no, Session.mk s.parser (computeMsgStatus m false) .success))
      s.msg.untold_untold
  | indeterminate =>
    exact congrArg (fun m => (Tribool.indeterminate, Session.mk s.parser m .success))
      s.msg.untold_untold

lemma leaveChunks_untold (r : LoopEnd) (s : Session) (t : ChunkMachine × Bytes) :
    (s.untold.leaveChunks r t).map (Prod.map id untold) untold =
      (s.leaveChunks r t).map (Prod.map id untold) untold := by
  obtain ⟨p, ⟨kind, line, valid, ch, sup, ds, ma, mi, len, buf, cache, hs, cs, st, hm, hd, ww⟩,
    ec⟩ := s
  cases r with
  | failed ev =>
    refine congrArg Sum.inl (concludes_untold.congr .no ?_)
    cases ev <;> cases kind <;> rfl
  | done => exact congrArg Sum.inl (concludes_untold.congr .yes (by cases kind <;> rfl))

lemma bodyTurn_untold (s : Session) (c : Byte) :
    (s.untold.bodyTurn c).map untold = (s.bodyTurn c).map untold := by
  have hsame : s.untold.parser.messageParseState = s.parser.messageParseState := rfl
  have htake : (s.untold.takeContent c).untold = (s.takeContent c).untold := by
    obtain ⟨p, ⟨kind, line, valid, ch, sup, ds, ma, mi, len, buf, cache, hs, cs, st, hm, hd, ww⟩,
      ec⟩ := s
    by_cases hlt : p.bytesContentRead < p.maxContentLength <;>
      simp only [takeContent, untold, hlt, if_true, if_false] <;> cases kind <;> rfl
  unfold bodyTurn
  rw [hsame]
  cases s.parser.messageParseState with
  | parseChunks =>
    refine phaseTurn_map (fun t => ?_) (fun r t => leaveChunks_untold r s t) ?_ _ c
    · exact congrArg (fun m : HTTPMessage => Session.mk { s.parser with chunk := t.1 }
        { m with chunkCache := t.2 } .success) s.msg.untold_untold
    · exact fun t t' _ ht => congrArg Turn.next ht
  | parseContent =>
    have hr : s.untold.parser.bytesContentRemaining = s.parser.bytesContentRemaining := rfl
    show (contentTurn s.untold c).map untold = (contentTurn s c).map untold
    unfold contentTurn
    rw [hr]
    split_ifs
    · have hc := congrArg Prod.snd (concludes_untold.congr .yes htake)
      exact congrArg (Turn.stop true Tribool.yes) hc
    · exact congrArg Turn.next htake
  | parseContentNoLength =>
    exact congrArg (fun m : HTTPMessage => Turn.next (Session.mk s.parser
      { m with chunkCache := cacheByte s.parser.maxContentLength s.msg.chunkCache c } .success))
      s.msg.untold_untold
  | _ =>
    have hc := congrArg Prod.snd (concludes_untold .yes s)
    exact congrArg (Turn.stop false Tribool.yes) hc

lemma bodyTurn_respects_untold : Respects untold bodyTurn := Respects.of_view bodyTurn_untold

/-! ### The end of the header -/

/-- The loop over the header. -/
def headerScan (s : Session) (w : Bytes) : Scanned Byte (HeaderMachine × HTTPMessage) LoopEnd :=
  scan (parseHeadersChar s.parser.isRequest s.parser.saveRawHeaders) (s.parser.header, s.msg) w

/-- The session where the loop over the header ends. -/
def atHeaderEnd (s : Session) (w : Bytes) : Session := s.atHeaders (s.headerScan w).state

/-- The sessions differ in what the response has been told, and in the status. -/
structure Unstarted (s s' : Session) : Prop where
  parser : s.parser = s'.parser
  isRequest : s.parser.isRequest = false
  kind : s.msg.isRequest = false
  msg : s.msg.unstarted = s'.msg.unstarted

lemma kind_headerScan (s : Session) (w : Bytes) : (s.headerScan w).state.2.kind = s.msg.kind := by
  refine scan_invariant (P := fun t : HeaderMachine × HTTPMessage => t.2.kind = s.msg.kind)
    ?_ ?_ _ w rfl
  · intro t c t' ht h
    exact (kind_next h).trans ht
  · intro t c b r t' ht h
    obtain rfl := parseHeadersSwitch_stop h
    exact ht

lemma Unstarted.headerScan {s s' : Session} (h : Unstarted s s') (w : Bytes) :
    (s.headerScan w).map (Prod.map id HTTPMessage.unstarted) =
      (s'.headerScan w).map (Prod.map id HTTPMessage.unstarted) := by
  have hrespects : Respects (Prod.map id HTTPMessage.unstarted)
      (parseHeadersChar s.parser.isRequest s.parser.saveRawHeaders) := by
    refine fun t t' c ht => ?_
    obtain ⟨hheader, hmsg⟩ := Prod.mk.inj ht
    have hsame : t.1 = t'.1 := hheader
    unfold parseHeadersChar
    rw [hsame, ← parseHeadersSwitch_unstarted, hmsg, parseHeadersSwitch_unstarted]
  rw [Session.headerScan, Session.headerScan, ← h.parser]
  refine hrespects.scan ?_ w
  rw [Prod.map, Prod.map, h.msg]

lemma Unstarted.atHeaderEnd {s s' : Session} (h : Unstarted s s') (w : Bytes) :
    Unstarted (s.atHeaderEnd w) (s'.atHeaderEnd w) := by
  have hstate := congrArg Scanned.state (h.headerScan w)
  obtain ⟨hheader, hmsg⟩ := Prod.mk.inj hstate
  have hsame : (s.headerScan w).state.1 = (s'.headerScan w).state.1 := hheader
  refine ⟨?_, h.isRequest, ?_, hmsg⟩
  · simp only [Session.atHeaderEnd, atHeaders, hsame, h.parser]
  · have hkind : (s.headerScan w).state.2.isRequest = s.msg.isRequest := by
      rw [HTTPMessage.isRequest, HTTPMessage.isRequest, kind_headerScan]
    exact hkind.trans h.kind

/-- The status line makes up for the status before it. -/
lemma Unstarted.headed {s s' : Session} (h : Unstarted s s') :
    s.headed.untold = s'.headed.untold := by
  have hcontent : ({ s.msg with contentLength := 0 } : HTTPMessage).unstarted =
      ({ s'.msg with contentLength := 0 } : HTTPMessage).unstarted :=
    congrArg (fun m : HTTPMessage => { m with contentLength := 0 }) h.msg
  have hcoding : ({ s.msg with contentLength := 0 } :
      HTTPMessage).updateTransferCodingUsingHeader.unstarted =
      ({ s'.msg with contentLength := 0 } :
        HTTPMessage).updateTransferCodingUsingHeader.unstarted := by
    rw [← HTTPMessage.unstarted_updateTransferCodingUsingHeader, hcontent,
      HTTPMessage.unstarted_updateTransferCodingUsingHeader]
  rw [Session.headed, Session.headed, ← h.parser, h.isRequest]
  refine HTTPMessage.untold_updateMessageWithHeaderData _ hcoding ?_
  rw [updateTransferCodingUsingHeader_eq]
  exact h.kind

/-- What comes of a header that is read to its end. -/
lemma scan_of_done {s : Session} (hs : s.InHeaders) {w : Bytes} (hw : w ≠ [])
    (hdone : (s.headerScan w).result = some .done) :
    scan byteTurn s w = match settle (s.atHeaderEnd w).finishHeaderParsing with
      | .inl (k, u) => ⟨some k, (s.headerScan w).rest, u⟩
      | .inr u => scan byteTurn u (s.headerScan w).rest := by
  have hleave : s.leaveHeaders .done (s.headerScan w).state =
      settle (s.atHeaderEnd w).finishHeaderParsing := rfl
  rw [scan_headers hs hw, leavePhase, show scan _ _ w = s.headerScan w from rfl, hdone]
  dsimp only
  rw [hleave]
  cases settle (s.atHeaderEnd w).finishHeaderParsing with
  | inl x => rfl
  | inr u => rfl

/-- A body is expected behind a header that is not the whole message. -/
lemma settle_open {s u : Session} (h : settle s.finishHeaderParsing = .inr u) :
    u.InBody ∧ u.Ready := by
  rcases hx : s.finishHeaderParsing with ⟨rc, v⟩
  rw [hx] at h
  cases rc with
  | indeterminate =>
    obtain rfl := Sum.inr.inj h
    exact ⟨(finishHeaderParsing_open hx).1, (finishHeaderParsing_open hx).2.1⟩
  | yes => cases h
  | no => cases h

/-- A response is read alike, whatever it has been told of its request, if its header announces the
same content. -/
theorem scan_told {s s' : Session} (h : Unstarted s s') (hs : s.InHeaders) {w : Bytes} (hw : w ≠ [])
    (hdone : (s.headerScan w).result = some .done)
    (hframing : framing false (s.atHeaderEnd w).headed = framing false (s'.atHeaderEnd w).headed) :
    (scan byteTurn s w).map untold = (scan byteTurn s' w).map untold := by
  have hs' : s'.InHeaders := by
    rw [InHeaders, ← h.parser]
    exact hs
  have hend := h.atHeaderEnd w
  have hresult := congrArg Scanned.result (h.headerScan w)
  have hmap := congrArg Scanned.rest (h.headerScan w)
  have hrest : (s.headerScan w).rest = (s'.headerScan w).rest := hmap
  have hdone' : (s'.headerScan w).result = some .done := hresult.symm.trans hdone
  have hstart : (settle (s.atHeaderEnd w).finishHeaderParsing).map (Prod.map id untold) untold =
      (settle (s'.atHeaderEnd w).finishHeaderParsing).map (Prod.map id untold) untold := by
    refine concludes_untold.settle ?_
    rw [finishHeaderParsing_eq, finishHeaderParsing_eq, ← hend.parser, hend.isRequest, hframing]
    exact startBody_untold hend.parser hend.headed _
  rw [scan_of_done hs hw hdone, scan_of_done hs' hw hdone', hrest]
  cases hx : settle (s.atHeaderEnd w).finishHeaderParsing with
  | inl x =>
    cases hx' : settle (s'.atHeaderEnd w).finishHeaderParsing with
    | inl x' =>
      rw [hx, hx'] at hstart
      obtain ⟨hk, hu⟩ := Prod.mk.inj (Sum.inl.inj hstart)
      have hk' : x.1 = x'.1 := hk
      simp only [Scanned.map, hk', hu]
    | inr u' =>
      rw [hx, hx'] at hstart
      cases hstart
  | inr u =>
    cases hx' : settle (s'.atHeaderEnd w).finishHeaderParsing with
    | inl x' =>
      rw [hx, hx'] at hstart
      cases hstart
    | inr u' =>
      rw [hx, hx'] at hstart
      obtain ⟨hb, hr⟩ := settle_open hx
      obtain ⟨hb', hr'⟩ := settle_open hx'
      show (scan byteTurn u _).map untold = (scan byteTurn u' _).map untold
      rw [scan_body hb hr, scan_body hb' hr']
      exact bodyTurn_respects_untold.scan (Sum.inr.inj hstart) _

end Session

/-! ### Responses to `HEAD` -/

namespace HTTPMessage

/-- The response has been told of a request with the method `HEAD`. -/
def answersHead (m : HTTPMessage) : Bool :=
  match m.kind with
  | .request _ => false
  | .response r => r.requestMethod = requestMethodHead

/-- The code says that there is no content. -/
def EmptyStatus (code : ℕ) : Prop :=
  (100 ≤ code ∧ code ≤ 199) ∨ code = 204 ∨ code = 205 ∨ code = 304

/-- The code of a response. -/
def statusOf (m : HTTPMessage) : ℕ :=
  match m.kind with
  | .request _ => 0
  | .response r => r.statusCode

/-- A response that ends at one place, whether it is one to `HEAD` or not: it is chunked, or has no
content anyway. -/
def FramesItself (m : HTTPMessage) : Prop :=
  m.announcesChunks = true ∨ EmptyStatus m.statusOf ∨
    ∃ e, m.headers.find headerContentLength = some e ∧ lexicalCast sizeMod (trim e.2) = some 0

lemma framing_untold {m m' : HTTPMessage} (h : m.untold = m'.untold)
    (hhead : m.answersHead = m'.answersHead) : framing false m = framing false m' := by
  obtain ⟨kind, line, valid, ch, sup, ds, ma, mi, len, buf, cache, hs, cs, st, hm, hd, ww⟩ := m
  obtain ⟨kind', line', valid', ch', sup', ds', ma', mi', len', buf', cache', hs', cs', st', hm',
    hd', ww'⟩ := m'
  simp only [untold, HTTPMessage.mk.injEq, true_and, and_true] at h
  obtain ⟨hkind, rfl, rfl, rfl, rfl, rfl, rfl, rfl, rfl, rfl, rfl, rfl, rfl, rfl, rfl⟩ := h
  have himplied : isContentLengthImplied ⟨kind, line, valid, ch, sup, ds, ma, mi, len, buf, cache,
      hs, cs, st, hm, hd, ww⟩ = isContentLengthImplied ⟨kind', line, valid, ch, sup', ds, ma, mi,
        len, buf, cache, hs, cs, st, hm, hd, ww'⟩ := by
    cases kind with
    | request r =>
      cases kind' with
      | request r' => rfl
      | response r' => cases hkind
    | response r =>
      cases kind' with
      | request r' => cases hkind
      | response r' =>
        have hcode : r.statusCode = r'.statusCode := by
          simp only [MessageKind.untold, MessageKind.response.injEq, ResponseData.mk.injEq] at hkind
          exact hkind.1
        simp only [answersHead, decide_eq_decide] at hhead
        simp only [isContentLengthImplied, hcode, hhead]
  simp only [framing, himplied]

lemma framing_answersHead {m : HTTPMessage} (h : m.answersHead = true) :
    framing false m = if m.isChunked then .chunked else .empty := by
  have himplied : m.isContentLengthImplied = true := by
    obtain ⟨kind, line, valid, ch, sup, ds, ma, mi, len, buf, cache, hs, cs, st, hm, hd, ww⟩ := m
    cases kind with
    | request r => cases h
    | response r =>
      simp only [answersHead, decide_eq_true_eq] at h
      simp [isContentLengthImplied, h]
  rw [framing, if_pos himplied]

/-- What the header announces if the request is not `HEAD`. -/
lemma framing_eq_answersHead_iff {m m' : HTTPMessage} (h : m.untold = m'.untold)
    (hframed : m.announcesChunks = m.isChunked) (hm : m.answersHead = true) (hm' : m'.answersHead = false) :
    framing false m = framing false m' ↔ m.FramesItself := by
  rw [framing_answersHead hm]
  obtain ⟨kind, line, valid, ch, sup, ds, ma, mi, len, buf, cache, hs, cs, st, hmi, hd, ww⟩ := m
  obtain ⟨kind', line', valid', ch', sup', ds', ma', mi', len', buf', cache', hs', cs', st', hmi',
    hd', ww'⟩ := m'
  simp only [untold, HTTPMessage.mk.injEq, true_and, and_true] at h
  obtain ⟨hkinds, rfl, rfl, rfl, rfl, rfl, rfl, rfl, rfl, rfl, rfl, rfl, rfl, rfl, rfl⟩ := h
  cases kind with
  | request r => cases hm
  | response r =>
    cases kind' with
    | request r' => cases hkinds
    | response r' =>
      have hcode : r.statusCode = r'.statusCode := by
        simp only [MessageKind.untold, MessageKind.response.injEq, ResponseData.mk.injEq] at hkinds
        exact hkinds.1
      have hother : r'.requestMethod ≠ requestMethodHead := by
        simpa [answersHead] using hm'
      rw [FramesItself, hframed]
      cases ch with
      | true => simp [framing]
      | false =>
        simp only [framing, isContentLengthImplied, hother, false_or, statusOf, EmptyStatus, hcode,
          Bool.false_eq_true, if_false, decide_eq_true_eq]
        by_cases hempty : (100 ≤ r'.statusCode ∧ r'.statusCode ≤ 199) ∨ r'.statusCode = 204 ∨
            r'.statusCode = 205 ∨ r'.statusCode = 304
        · simp [hempty]
        · simp only [hempty, false_or]
          cases hs.find headerContentLength with
          | none => simp
          | some e =>
            cases hcast : lexicalCast sizeMod (trim e.2) with
            | none => simp [hcast]
            | some n => cases n <;> simp [hcast]

lemma statusOf_congr {m m' : HTTPMessage} (h : m.head = m'.head) : m.statusOf = m'.statusOf := by
  obtain ⟨hfields, -⟩ := Prod.mk.inj h
  rw [firstLineFields, firstLineFields] at hfields
  rw [statusOf, statusOf]
  cases hm : m.kind with
  | request r =>
    cases hm' : m'.kind with
    | request r' => rfl
    | response r' => simp [hm, hm'] at hfields
  | response r =>
    cases hm' : m'.kind with
    | request r' => simp [hm, hm'] at hfields
    | response r' =>
      simp only [hm, hm', Sum.inr.injEq, Prod.mk.injEq] at hfields
      exact hfields.1

lemma framesItself_congr {m m' : HTTPMessage} (h : m.head = m'.head) :
    m.FramesItself ↔ m'.FramesItself := by
  have hcode := statusOf_congr h
  obtain ⟨-, hrest⟩ := Prod.mk.inj h
  obtain ⟨-, hheaders⟩ := Prod.mk.inj hrest
  rw [FramesItself, FramesItself, announcesChunks, announcesChunks, hheaders, hcode]

end HTTPMessage

namespace Session

lemma answersHead_headed {s : Session} (hs : s.parser.isRequest = false) :
    s.headed.answersHead = s.msg.answersHead := by
  rw [headed, hs, updateTransferCodingUsingHeader_eq]
  simp only [updateMessageWithHeaderData, Bool.false_eq_true, if_false, HTTPMessage.setStatusCode]
  cases hm : s.msg.kind with
  | request r => simp [HTTPMessage.setStatusMessage, hm, HTTPMessage.answersHead, parseCookieHeaders]
  | response r =>
    simp [HTTPMessage.setStatusMessage, hm, HTTPMessage.answersHead, parseCookieHeaders,
      HTTPMessage.clearFirstLine]

lemma framed_headed (s : Session) : s.headed.announcesChunks = s.headed.isChunked := by
  rw [headed_isChunked, HTTPMessage.announcesChunks, HTTPMessage.announcesChunks, headers_headed]

lemma answersHead_atHeaderEnd (s : Session) (w : Bytes) :
    (s.atHeaderEnd w).msg.answersHead = s.msg.answersHead := by
  have hkind : (s.atHeaderEnd w).msg.kind = s.msg.kind := kind_headerScan s w
  rw [HTTPMessage.answersHead, HTTPMessage.answersHead, hkind]

/-- A response that is complete, or waits for the end of the connection, has got a header. -/
lemma done_of_result {s : Session} (hs : s.InHeaders) {w : Bytes} (hw : w ≠ [])
    (h : (scan byteTurn s w).result = some .yes ∨ (scan byteTurn s w).result = none ∧
      (scan byteTurn s w).state.parser.messageParseState = .parseContentNoLength) :
    (s.headerScan w).result = some .done := by
  rw [scan_headers hs hw, show scan _ _ w = s.headerScan w from rfl, leavePhase] at h
  cases hr : (s.headerScan w).result with
  | none => simp [hr, atHeaders] at h
  | some r =>
    cases r with
    | done => rfl
    | failed ev => simp [hr, leaveHeaders, conclude] at h

/-- The body does not change the head of the message. -/
lemma head_bodyTurn (s : Session) (c : Byte) :
    (s.bodyTurn c).map (fun t => t.msg.head) = (s.bodyTurn c).map fun _ => s.msg.head := by
  have htake : (s.takeContent c).msg.head = s.msg.head := by
    rw [takeContent]
    dsimp only
    split_ifs <;> rfl
  rw [bodyTurn]
  cases s.parser.messageParseState with
  | parseChunks =>
    dsimp only
    rw [chunkTurn, phaseTurn]
    split
    · rfl
    · rename_i b r t _
      cases r with
      | failed ev => cases ev <;> rfl
      | done =>
        exact congrArg (Turn.stop b Tribool.yes)
          (conclude_yes_head { s.atChunks t with msg := (s.atChunks t).msg.concatenateChunks })
  | parseContent =>
    dsimp only
    rw [contentTurn]
    split_ifs
    · exact congrArg (Turn.stop true Tribool.yes) ((conclude_yes_head _).trans htake)
    · exact congrArg Turn.next htake
  | parseContentNoLength => rfl
  | _ => exact congrArg (Turn.stop false Tribool.yes) (conclude_yes_head s)

lemma head_scan_bodyTurn (s : Session) (w : Bytes) :
    (scan bodyTurn s w).state.msg.head = s.msg.head := by
  refine scan_invariant (P := fun t : Session => t.msg.head = s.msg.head) ?_ ?_ s w rfl
  · intro t c t' ht h
    have hturn := head_bodyTurn t c
    rw [h] at hturn
    exact (Turn.next.inj hturn).trans ht
  · intro t c b r t' ht h
    have hturn := head_bodyTurn t c
    rw [h] at hturn
    exact (Turn.stop.inj hturn).2.2.trans ht

lemma head_startBody (s : Session) (f : Framing) : (s.startBody f).2.msg.head = s.headed.head := by
  cases f <;> rfl

/-- A message has the head that its header gives it. -/
lemma head_scan {s : Session} (hs : s.InHeaders) {w : Bytes} (hw : w ≠ [])
    (hdone : (s.headerScan w).result = some .done) :
    (scan byteTurn s w).state.msg.head = (s.atHeaderEnd w).headed.head := by
  have hstart := head_startBody (s.atHeaderEnd w)
    (framing (s.atHeaderEnd w).parser.isRequest (s.atHeaderEnd w).headed)
  rw [← finishHeaderParsing_eq] at hstart
  rw [scan_of_done hs hw hdone]
  rcases hx : (s.atHeaderEnd w).finishHeaderParsing with ⟨rc, u⟩
  rw [hx] at hstart
  cases rc with
  | yes => exact (conclude_yes_head u).trans hstart
  | no => exact hstart
  | indeterminate =>
    obtain ⟨hb, hr⟩ := settle_open (congrArg settle hx)
    show (scan byteTurn u _).state.msg.head = _
    rw [scan_body hb hr, head_scan_bodyTurn]
    exact hstart

/-- A response to `HEAD` is read alike by a parser that does not know of the `HEAD` if it frames
itself; otherwise that parser waits for content behind the header. -/
theorem scan_answersHead {s s' : Session} (h : Unstarted s s') (hs : s.InHeaders) {w : Bytes}
    (hw : w ≠ []) (hhead : s.msg.answersHead = true) (hother : s'.msg.answersHead = false)
    (honly : s.parser.parseHeadersOnly = false) (hdone : (s.headerScan w).result = some .done)
    (hrest : (scan byteTurn s w).rest = []) :
    ((scan byteTurn s w).state.msg.FramesItself →
      (scan byteTurn s w).map untold = (scan byteTurn s' w).map untold) ∧
    (¬ (scan byteTurn s w).state.msg.FramesItself →
      (scan byteTurn s w).result = some .yes ∧ (scan byteTurn s' w).result ≠ some .yes) := by
  have hend := h.atHeaderEnd w
  have hreq' : (s'.atHeaderEnd w).parser.isRequest = false := hend.parser ▸ hend.isRequest
  have hheaded : (s.atHeaderEnd w).headed.answersHead = true := by
    rw [answersHead_headed hend.isRequest, answersHead_atHeaderEnd, hhead]
  have hheaded' : (s'.atHeaderEnd w).headed.answersHead = false := by
    rw [answersHead_headed hreq', answersHead_atHeaderEnd, hother]
  have hframes := HTTPMessage.framing_eq_answersHead_iff hend.headed
    (framed_headed (s.atHeaderEnd w)) hheaded hheaded'
  rw [HTTPMessage.framesItself_congr (head_scan hs hw hdone), ← hframes]
  refine ⟨fun hframing => scan_told h hs hw hdone hframing, fun hframing => ?_⟩
  have hchunked : (s.atHeaderEnd w).headed.isChunked = false := by
    by_contra hchunked
    have hsame : (s.atHeaderEnd w).headed.isChunked = (s'.atHeaderEnd w).headed.isChunked :=
      (congrArg HTTPMessage.isChunked hend.headed :
        (s.atHeaderEnd w).headed.untold.isChunked = (s'.atHeaderEnd w).headed.untold.isChunked)
    refine hframing ?_
    rw [Bool.not_eq_false] at hchunked
    rw [framing, framing, ← hsame, if_pos hchunked, if_pos hchunked]
  -- the header is the whole response to `HEAD`
  have hempty : framing false (s.atHeaderEnd w).headed = .empty := by
    rw [HTTPMessage.framing_answersHead hheaded, hchunked]
    rfl
  rw [hempty] at hframing
  have hs' : s'.InHeaders := by
    rw [InHeaders, ← h.parser]
    exact hs
  have hmap := congrArg Scanned.rest (h.headerScan w)
  have hsame : (s.headerScan w).rest = (s'.headerScan w).rest := hmap
  rw [scan_of_done hs hw hdone, finishHeaderParsing_eq, hend.isRequest, hempty] at hrest ⊢
  refine ⟨rfl, fun hyes => hframing ?_⟩
  rw [scan_of_done hs' hw (done_of_result hs' hw (Or.inl hyes)), finishHeaderParsing_eq, hreq',
    ← hsame] at hyes
  have hnil : (s.headerScan w).rest = [] := hrest
  rw [hnil] at hyes
  have hfollows : (s'.atHeaderEnd w).bodyFollows = .indeterminate := by
    have honly' : (s'.atHeaderEnd w).parser.parseHeadersOnly = false := by
      rw [← hend.parser]
      exact honly
    rw [bodyFollows, honly']
    rfl
  cases hf : framing false (s'.atHeaderEnd w).headed with
  | empty => rfl
  | chunked => simp [hf, startBody, hfollows, settle] at hyes
  | invalidLength => simp [hf, startBody, settle] at hyes
  | length n => simp [hf, startBody, hfollows, settle] at hyes
  | untilEof => simp [hf, startBody, hfollows, settle] at hyes

end Session

end PionCore.Net
