/-
# A client and a server

A client sends requests on a connection that is kept alive, with `HTTPRequestWriter`, and reads the
responses with `HTTPResponseReader`, while a server handles the requests and answers them with
`HTTPResponseWriter`.  Bytes are in flight in both directions, and any part of them may come with a
read.  However the steps of both sides are interleaved, requests and responses arrive whole and in
their order, so that each response is the answer to the request for which it is read
(`exchange`), and a client that waits does not wait for ever (`exchange_progress`).
-/
import PionCore.Net.HTTPRequestWriter
import PionCore.Net.Pipelining
import PionCore.Net.RoundTrip

namespace PionCore.Net

open PionCore.Lib

/-! ### The client -/

/-- A reader of responses as it comes from its constructor: the message is
`HTTPResponse(http_request)`. -/
def newResponseReader (request : HTTPMessage) : Session :=
  newSession false defaultContentMax false false
    ((HTTPMessage.newResponse []).updateRequestInfo request.getMethod request.versionMajor
      request.versionMinor) .success

/-- The connection of a client, which is to be kept alive, the reader that waits for bytes, and what
was passed to the handler of a reader. -/
structure Client where
  conn : TCPConnection := { lifecycle := .keepAlive }
  reader : Option Session := none
  received : List (HTTPMessage × ErrorCode) := []
deriving DecidableEq

namespace Client

/-- A reader goes on, or has finished. -/
def proceed (c : Client) (x : TCPConnection × ReadResult) : Client :=
  match x.2 with
  | .readBytes reader => { c with conn := x.1, reader := some reader }
  | .finishedReading msg ec =>
      { conn := x.1, reader := none, received := c.received ++ [(msg, ec)] }

/-- `HTTPResponseReader::create` and `receive`. -/
def receive (c : Client) (request : HTTPMessage) : Client :=
  c.proceed (HTTPReader.receive c.conn (newResponseReader request))

end Client

/-! ### The exchange -/

/-- The response that is sent for a request: it is created for it. -/
def Outgoing.answerTo (request : HTTPMessage) (x : Outgoing) : Outgoing :=
  { x with
    message := x.message.updateRequestInfo request.getMethod request.versionMajor
      request.versionMinor }

/-- A response that was created for the request, and that the parser has room for. -/
def Outgoing.IsAnswerTo (request : HTTPMessage) (y : Outgoing) : Prop :=
  (∃ x : Outgoing, y = x.answerTo request) ∧ y.message.isRequest = false ∧ y.Fits

/-- Both sides of a connection, what they have sent, and the bytes that are in flight. -/
structure Exchange where
  client : Client := {}
  requests : List Outgoing := []
  toServer : Bytes := []
  served : Served
  answers : List Outgoing := []
  toClient : Bytes := []

inductive ExchangeEvent where
  /-- the client sends a request -/
  | send (x : Outgoing)
  /-- bytes arrive at the server -/
  | serverRead (w : Bytes)
  /-- the handler of the last request sends a response -/
  | answer (x : Outgoing)
  /-- the response is sent, and the server turns to the next request -/
  | finish
  /-- the client waits for the next response -/
  | receive
  /-- bytes arrive at the client -/
  | clientRead (w : Bytes)

/-- The client has sent a request or called `receive`, or none of this. -/
def ExchangeEvent.isClientCall : ExchangeEvent → Bool
  | .send _ | .receive => true
  | .serverRead _ | .answer _ | .finish | .clientRead _ => false

instance (x : Outgoing) : Decidable x.Fits :=
  decidable_of_iff
    ((x.message.LineOk ∧ x.message.versionMajor < uint16Mod ∧ x.message.versionMinor < uint16Mod ∧
      (x.message.versionMajor > 1 ∨ x.message.versionMajor ≥ 1 ∧ x.message.versionMinor ≥ 1)) ∧
      (x.message.FreshLine ∧ (∀ e ∈ x.message.headers, HeaderOk e) ∧
        x.message.announcesChunks = false ∧ x.message.doNotSendContentLength = false) ∧
      x.message.payload.head? ≠ some 0 ∧ x.body.length ≤ defaultContentMax ∧
      (x.body = [] → x.message.contentLength = 0) ∧
      (x.message.isContentLengthImplied = true → x.body = []))
    ⟨fun ⟨⟨h1, h2, h3, h4⟩, ⟨h5, h6, h7, h8⟩, h9, h10, h11, h12⟩ =>
      ⟨h1, h2, h3, h4, h5, h6, h7, h8, h9, h10, h11, h12⟩,
    fun h => ⟨⟨h.line, h.major, h.minor, h.version⟩,
      ⟨h.fresh, h.headers, h.notChunked, h.sendsLength⟩, h.first, h.size, h.empty, h.implied⟩⟩

namespace Exchange

variable {ι : Type*} (ord : HashOrder) (server : HTTPServer ι)

/-- A connection that was made. -/
def start : Exchange where
  served := server.accepted

/-- The client sends while it does not wait for a response, since a reader that waits has taken the
connection for one that is closed.  Both sides send what the parser has room for.  A read takes any
bytes from the front of those in flight. -/
def step (s : Exchange) : ExchangeEvent → Option Exchange
  | .send x =>
      if s.client.reader = none ∧ x.message.isRequest = true ∧ x.Fits then
        some { s with
          requests := s.requests ++ [x]
          toServer := s.toServer ++ x.wire ord s.client.conn.getKeepAlive }
      else none
  | .serverRead w =>
      if w <+: s.toServer then
        (server.step s.served (.read w)).map fun served =>
          { s with served := served, toServer := s.toServer.drop w.length }
      else none
  | .answer x =>
      match s.served.requests[s.answers.length]? with
      | none => none
      | some q =>
          let y := x.answerTo q.1
          if y.message.isRequest = false ∧ y.Fits then
            some { s with
              answers := s.answers ++ [y]
              toClient := s.toClient ++ y.wire ord s.served.conn.getKeepAlive }
          else none
  | .finish =>
      if s.answers.length = s.served.requests.length then
        (server.step s.served .finish).map fun served => { s with served := served }
      else none
  | .receive =>
      match s.client.reader, s.requests[s.client.received.length]? with
      | none, some x => some { s with client := s.client.receive x.message }
      | none, none | some _, _ => none
  | .clientRead w =>
      match s.client.reader with
      | none => none
      | some reader =>
          if (w ≠ [] ∧ w.length ≤ readBufferSize) ∧ w <+: s.toClient then
            some { s with
              client := s.client.proceed (HTTPReader.consumeRead s.client.conn reader w)
              toClient := s.toClient.drop w.length }
          else none

/-- What a step can do. -/
lemma step_cases {s s' : Exchange} {e : ExchangeEvent} (h : s.step ord server e = some s') :
    (∃ x, e = .send x ∧ s.client.reader = none ∧ x.message.isRequest = true ∧ x.Fits ∧
      s' = { s with
        requests := s.requests ++ [x]
        toServer := s.toServer ++ x.wire ord s.client.conn.getKeepAlive }) ∨
    (∃ w rest served, e = .serverRead w ∧ s.toServer = w ++ rest ∧
      server.step s.served (.read w) = some served ∧
      s' = { s with served := served, toServer := rest }) ∨
    (∃ x q, e = .answer x ∧ s.served.requests[s.answers.length]? = some q ∧
      (x.answerTo q.1).message.isRequest = false ∧ (x.answerTo q.1).Fits ∧
      s' = { s with
        answers := s.answers ++ [x.answerTo q.1]
        toClient := s.toClient ++ (x.answerTo q.1).wire ord s.served.conn.getKeepAlive }) ∨
    (∃ served, e = .finish ∧ s.answers.length = s.served.requests.length ∧
      server.step s.served .finish = some served ∧ s' = { s with served := served }) ∨
    (∃ x, e = .receive ∧ s.client.reader = none ∧
      s.requests[s.client.received.length]? = some x ∧
      s' = { s with client := s.client.receive x.message }) ∨
    ∃ w rest reader, e = .clientRead w ∧ s.client.reader = some reader ∧ w ≠ [] ∧
      s.toClient = w ++ rest ∧
      s' = { s with
        client := s.client.proceed (HTTPReader.consumeRead s.client.conn reader w)
        toClient := rest } := by
  cases e with
  | send x =>
    simp only [step] at h
    split_ifs at h with hx
    exact Or.inl ⟨x, rfl, hx.1, hx.2.1, hx.2.2, (Option.some.inj h).symm⟩
  | serverRead w =>
    simp only [step] at h
    split_ifs at h with hw
    obtain ⟨served, hserved, rfl⟩ := Option.map_eq_some_iff.1 h
    obtain ⟨rest, hrest⟩ := hw
    refine Or.inr (Or.inl ⟨w, rest, served, rfl, hrest.symm, hserved, ?_⟩)
    rw [← hrest, List.drop_left]
  | answer x =>
    cases hq : s.served.requests[s.answers.length]? with
    | none => simp [step, hq] at h
    | some q =>
      simp only [step, hq] at h
      split_ifs at h with hx
      exact Or.inr (Or.inr (Or.inl ⟨x, q, rfl, rfl, hx.1, hx.2, (Option.some.inj h).symm⟩))
  | finish =>
    simp only [step] at h
    split_ifs at h with hlength
    obtain ⟨served, hserved, rfl⟩ := Option.map_eq_some_iff.1 h
    exact Or.inr (Or.inr (Or.inr (Or.inl ⟨served, rfl, hlength, hserved, rfl⟩)))
  | receive =>
    cases hr : s.client.reader with
    | some reader => simp [step, hr] at h
    | none =>
      cases hx : s.requests[s.client.received.length]? with
      | none => simp [step, hr, hx] at h
      | some x =>
        simp only [step, hr, hx] at h
        exact Or.inr (Or.inr (Or.inr (Or.inr (Or.inl
          ⟨x, rfl, rfl, rfl, (Option.some.inj h).symm⟩))))
  | clientRead w =>
    cases hr : s.client.reader with
    | none => simp [step, hr] at h
    | some reader =>
      simp only [step, hr] at h
      split_ifs at h with hw
      obtain ⟨⟨hne, -⟩, rest, hrest⟩ := hw
      refine Or.inr (Or.inr (Or.inr (Or.inr (Or.inr
        ⟨w, rest, reader, rfl, rfl, hne, hrest.symm, ?_⟩))))
      rw [← Option.some.inj h, ← hrest, List.drop_left]

end Exchange

/-! ### Reading a request -/

namespace Outgoing

/-- The next bytes are the text of a message. -/
lemma wire_ne_nil (ord : HashOrder) {x : Outgoing} (hx : x.Fits) : x.wire ord true ≠ [] := by
  rw [wire_eq ord hx]
  simp [stringCRLF]

lemma getMethod_eq {m m' : HTTPMessage} (h : m.firstLineFields = m'.firstLineFields) :
    m.getMethod = m'.getMethod := by
  cases hm : m.kind <;> cases hm' : m'.kind <;>
    simp_all [HTTPMessage.firstLineFields, HTTPMessage.getMethod]

/-- A new request awaits any request. -/
lemma awaits_newRequest {m : HTTPMessage} (hm : m.isRequest = true) :
    Session.Receives (HTTPMessage.newRequest []) m where
  isRequest := hm.symm
  headers := rfl
  chunkCache := rfl
  isValid := rfl
  implied := by
    intro h m1 hm1 _ _ himplied
    have hrequest : m1.isRequest = true := by rw [HTTPMessage.isRequest, hm1]; rfl
    have hhead := Session.head_updateMessageWithHeaderData (h := h) (m := m1) (by simp [hrequest])
    have hfields := (Prod.mk.inj hhead).1
    rw [hrequest] at hfields
    rw [hm] at himplied
    cases hk : (updateMessageWithHeaderData true h m1).kind with
    | request r => simp [HTTPMessage.isContentLengthImplied, hk] at himplied
    | response r => simp [HTTPMessage.firstLineFields, HeaderMachine.fields, hk] at hfields

/-- A request that is sent is one that keeps the connection alive, and is handled as it was
meant. -/
lemma keepsAlive (ord : HashOrder) {x : Outgoing} (hrequest : x.message.isRequest = true)
    (hx : x.Fits) :
    KeepsAlive defaultContentMax (x.wire ord true) ∧
      x.Arrives (parsedAlone defaultContentMax (x.wire ord true)).1 := by
  obtain ⟨v, hscan, hec, harrives, hkeep⟩ :=
    scan_arrives ord hx (awaits_newRequest (m := x.whole) hrequest) []
  rw [List.append_nil, hrequest] at hscan
  have hread := readAll_piece_eq_scan (s := newReader defaultContentMax)
    (newSession_ready _ _ _ _ _ _) rfl (wire_ne_nil ord hx)
  have hsame : scan Session.byteTurn (newReader defaultContentMax) (x.wire ord true) =
    ⟨some .yes, [], v⟩ := hscan
  rw [hsame] at hread
  simp only [observed, Prod.mk.injEq] at hread
  obtain ⟨hresult, hrest, -, hmsg⟩ := hread
  refine ⟨⟨hresult, hrest, ?_⟩, ?_⟩
  · rw [hmsg]
    exact hkeep
  · rw [parsedAlone, hmsg]
    exact harrives

/-! ### Reading a response -/

/-- The response is read by a reader for the request, and keeps the connection alive. -/
def Answers (ord : HashOrder) (x y : Outgoing) : Prop :=
  ∀ rest, ∃ v : Session,
    scan Session.byteTurn (newResponseReader x.message) (y.wire ord true ++ rest) =
      ⟨some .yes, rest, v⟩ ∧
    v.ec = .success ∧ y.Arrives v.msg ∧ v.msg.checkKeepAlive = true

/-- Each response is the answer to the request at its place. -/
def AnswerAll (ord : HashOrder) (requests answers : List Outgoing) : Prop :=
  ∀ (i : ℕ) (y : Outgoing), answers[i]? = some y → ∃ x, requests[i]? = some x ∧ x.Answers ord y

/-- A response that was created for a request has its method. -/
lemma kind_answerTo {q : HTTPMessage} {x : Outgoing}
    (hresponse : (x.answerTo q).message.isRequest = false) :
    ∃ code text, (x.answerTo q).message.kind = .response ⟨code, text, q.getMethod⟩ := by
  cases hk : x.message.kind with
  | request r =>
    simp [answerTo, HTTPMessage.updateRequestInfo, HTTPMessage.isRequest, hk] at hresponse
  | response r => exact ⟨r.statusCode, r.statusMessage, by
      simp [answerTo, HTTPMessage.updateRequestInfo, hk]⟩

/-- A response to the request as it arrived is read by the reader for the request as it was
sent. -/
lemma answers_answerTo (ord : HashOrder) {x y : Outgoing} {q : HTTPMessage} (hx : x.Arrives q)
    (hresponse : (y.answerTo q).message.isRequest = false) (hy : (y.answerTo q).Fits) :
    Answers ord x (y.answerTo q) := by
  obtain ⟨code, text, hkind⟩ := kind_answerTo hresponse
  have hmethod : q.getMethod = x.message.getMethod := getMethod_eq hx.sameHead.fields
  have hreceives : Session.Receives ((HTTPMessage.newResponse []).updateRequestInfo
      x.message.getMethod x.message.versionMajor x.message.versionMinor) (y.answerTo q).whole :=
    { isRequest := hresponse.symm
      headers := rfl
      chunkCache := rfl
      isValid := rfl
      implied := by
        intro h m1 hm1 hfields hcode himplied
        have hfalse : (y.answerTo q).whole.isRequest = false := hresponse
        have hwhole : (y.answerTo q).whole.kind = .response ⟨code, text, q.getMethod⟩ := hkind
        simp only [HeaderMachine.fields, hfalse, HTTPMessage.firstLineFields, hwhole,
          Bool.false_eq_true, if_false, Sum.inr.injEq, Prod.mk.injEq] at hfields
        have hlt := hcode hfalse
        rw [hfields.1] at hlt
        rw [hfalse] at himplied
        have hone : m1.kind = .response ⟨responseCodeOk, responseMessageOk, x.message.getMethod⟩ :=
          hm1
        simp only [HTTPMessage.isContentLengthImplied,
          Session.kind_updateMessageWithHeaderData h hone, hfields.1, Nat.mod_eq_of_lt hlt]
          at himplied
        simp only [HTTPMessage.isContentLengthImplied, hwhole, hmethod]
        exact himplied }
  intro rest
  obtain ⟨v, hscan, hv⟩ := scan_arrives ord hy hreceives rest
  rw [hresponse] at hscan
  exact ⟨v, hscan, hv⟩

end Outgoing

/-! ### What the client has received -/

/-- Without a result the error code of a new reader is untouched. -/
lemma ec_readAll_response {request : HTTPMessage} {pieces : List Bytes}
    (hpieces : ∀ w ∈ pieces, w ≠ [])
    (h : (readAll (newResponseReader request) pieces).result = none) :
    (readAll (newResponseReader request) pieces).state.ec = .success := by
  have hread := readAll_eq_scan (s := newResponseReader request) (newSession_ready _ _ _ _ _ _) rfl
    hpieces
  simp only [observed, Prod.mk.injEq] at hread
  rw [hread.2.2.1]
  have hreading : (newResponseReader request).Reading :=
    Session.reading_newSession (.response ⟨responseCodeOk, responseMessageOk, request.getMethod⟩)
      _ defaultContentMax false false .success
  have hscan := scan_open
    (P := fun t => (t.Reading ∧ (t.InHeaders ∨ t.InBody)) ∧ t.ec = .success)
    (fun t c t' ht hnext => ⟨Session.reading_byteTurn ht.1.1 ht.1.2 hnext,
      (Session.ec_byteTurn ht.1.2 hnext).trans ht.2⟩)
    (s := newResponseReader request) (w := pieces.flatten)
    ⟨⟨hreading, Or.inl (Or.inl rfl)⟩, rfl⟩ (hread.1.symm.trans h)
  exact hscan.2

/-- A buffer is one more piece of the response. -/
lemma read_nextPiece {request : HTTPMessage} {pieces : List Bytes} {w : Bytes}
    (hpieces : ∀ v ∈ pieces, v ≠ [])
    (h : (readAll (newResponseReader request) pieces).result = none) (hw : w ≠ []) :
    (∀ v ∈ pieces ++ [w], v ≠ []) ∧
      Session.read { (readAll (newResponseReader request) pieces).state with ec := .success } w =
        readAll (newResponseReader request) (pieces ++ [w]) ∧
      observed (readAll (newResponseReader request) (pieces ++ [w])) =
        observed (scan Session.byteTurn (newResponseReader request) (pieces.flatten ++ w)) := by
  set new := newResponseReader request
  have hready : new.Ready := newSession_ready _ _ _ _ _ _
  have hpieces' : ∀ v ∈ pieces ++ [w], v ≠ [] := by
    intro v hv
    rcases List.mem_append.1 hv with hv | hv
    · exact hpieces v hv
    · rwa [List.mem_singleton.1 hv]
  have hsame : { (readAll new pieces).state with ec := .success } = (readAll new pieces).state := by
    rw [← ec_readAll_response hpieces h]
  have hdrained : (readAll new pieces).rest = [] := by
    have hread := readAll_eq_scan (s := new) hready rfl hpieces
    simp only [observed, Prod.mk.injEq] at hread
    rw [hread.2.1]
    exact scan_drained _ _ _ (hread.1.symm.trans h)
  have hsnoc := feedAll_snoc (f := Session.read) (s := new) h w
  rw [show feedAll id Session.read new pieces = readAll new pieces from rfl, hdrained] at hsnoc
  have hread := readAll_eq_scan (s := new) hready rfl hpieces'
  rw [List.flatten_append, List.flatten_singleton] at hread
  exact ⟨hpieces', (congrArg (fun t => Session.read t w) hsame).trans hsnoc.symm, hread⟩

namespace Client

/-- The responses that were received, in the order in which they were sent. -/
def Received (answers : List Outgoing) (c : Client) : Prop :=
  ∀ (i : ℕ) (r : HTTPMessage × ErrorCode), c.received[i]? = some r →
    ∃ y, answers[i]? = some y ∧ y.Arrives r.1 ∧ r.2 = .success

/-- The responses on the wire that were received. -/
def passed (ord : HashOrder) (answers : List Outgoing) (c : Client) : Bytes :=
  ((answers.take c.received.length).map fun y => y.wire ord true).flatten

/-- What the client has made of the bytes that came to it. -/
inductive Receiving (ord : HashOrder) (requests answers : List Outgoing) (d : Bytes)
    (c : Client) : Prop
  /-- the client does not wait, and the rest of the buffer is saved -/
  | idle (rest : Bytes) (reader : c.reader = none)
      (lifecycle : c.conn.lifecycle = if rest = [] then .keepAlive else .pipelined)
      (position : rest ≠ [] → c.conn.readPosition = rest)
      (delivered : d = c.passed ord answers ++ rest)
  /-- the pieces of the next response are read -/
  | reading (pieces : List Bytes) (x : Outgoing) (reader : Session)
      (request : requests[c.received.length]? = some x) (task : c.reader = some reader)
      (nonempty : ∀ w ∈ pieces, w ≠ [])
      (result : (readAll (newResponseReader x.message) pieces).result = none)
      (state : (readAll (newResponseReader x.message) pieces).state = reader)
      (delivered : d = c.passed ord answers ++ pieces.flatten)

lemma getElem?_append_some {α : Type*} {l l' : List α} {i : ℕ} {a : α} (h : l[i]? = some a) :
    (l ++ l')[i]? = some a := by
  rw [List.getElem?_append_left (List.getElem?_eq_some_iff.1 h).1, h]

variable {ord : HashOrder} {requests answers : List Outgoing} {d : Bytes} {c : Client}

/-- No more responses are received than were sent. -/
lemma Received.length_le (h : c.Received answers) : c.received.length ≤ answers.length := by
  by_contra hlt
  have hi : answers.length < c.received.length := by omega
  obtain ⟨y, hy, -⟩ := h answers.length _ (List.getElem?_eq_getElem hi)
  simp at hy

lemma Received.append (h : c.Received answers) (more : List Outgoing) :
    c.Received (answers ++ more) := by
  intro i r hr
  obtain ⟨y, hy, hv⟩ := h i r hr
  exact ⟨y, getElem?_append_some hy, hv⟩

lemma passed_split (ord : HashOrder) (answers : List Outgoing) (c : Client) :
    (answers.map fun y => y.wire ord true).flatten = c.passed ord answers ++
      ((answers.drop c.received.length).map fun y => y.wire ord true).flatten := by
  rw [passed, ← List.flatten_append, ← List.map_append, List.take_append_drop]

lemma passed_append (h : c.Received answers) (more : List Outgoing) :
    c.passed ord (answers ++ more) = c.passed ord answers := by
  rw [passed, passed, List.take_append_of_le_length h.length_le]

/-- More requests and responses do not change what was received. -/
lemma Receiving.append (hc : c.Received answers) (h : c.Receiving ord requests answers d)
    (requests' answers' : List Outgoing) :
    c.Receiving ord (requests ++ requests') (answers ++ answers') d := by
  cases h with
  | idle rest hreader hlifecycle hposition hd =>
    exact .idle rest hreader hlifecycle hposition (by rw [passed_append hc, hd])
  | reading pieces x reader hx htask hpieces hresult hstate hd =>
    exact .reading pieces x reader (getElem?_append_some hx) htask hpieces hresult hstate
      (by rw [passed_append hc, hd])

/-- The next response has been read, and what is left of the buffer is saved. -/
lemma receiving_whole {x : Scanned Byte Session Tribool} {y : Outgoing} {rest : Bytes}
    (hc : c.Received answers) (hnext : answers[c.received.length]? = some y)
    (hresult : x.result = some .yes) (hrest : x.rest = rest) (hec : x.state.ec = .success)
    (harrives : y.Arrives x.state.msg) (hkeep : x.state.msg.checkKeepAlive = true)
    (conn : TCPConnection) :
    let c' := c.proceed (HTTPReader.conclusion conn x)
    c'.Received answers ∧
      c'.Receiving ord requests answers (c.passed ord answers ++ (y.wire ord true ++ rest)) := by
  obtain ⟨hlt, rfl⟩ := List.getElem?_eq_some_iff.1 hnext
  simp only [HTTPReader.conclusion, hresult, hrest, hec, proceed]
  constructor
  · intro i r hr
    rw [List.getElem?_append] at hr
    split_ifs at hr with hi
    · exact hc i r hr
    · obtain ⟨hzero, rfl⟩ : i - c.received.length = 0 ∧ (x.state.msg, ErrorCode.success) = r := by
        simpa using List.getElem?_eq_some_iff.1 hr
      obtain rfl : i = c.received.length := by omega
      exact ⟨_, hnext, harrives, rfl⟩
  · refine .idle rest rfl ?_ ?_ ?_
    · simp only [HTTPReader.keep, hkeep, if_true]
      split_ifs <;> rfl
    · intro hne
      simp only [HTTPReader.keep, hkeep, if_true, if_neg hne]
      rfl
    · rw [passed, passed, List.length_append, List.length_singleton,
        List.take_succ_eq_append_getElem hlt, List.map_append, List.flatten_append,
        List.map_singleton, List.flatten_singleton, List.append_assoc]

/-- A buffer is read: either it ends inside of the next response, or this response is received and
the rest of the buffer is saved. -/
lemma receiving_buffer {pieces : List Bytes} {w : Bytes} {x : Outgoing} {reader : Session}
    (hanswers : Outgoing.AnswerAll ord requests answers) (hc : c.Received answers)
    (hx : requests[c.received.length]? = some x) (hpieces : ∀ v ∈ pieces, v ≠ [])
    (hresult : (readAll (newResponseReader x.message) pieces).result = none)
    (hstate : (readAll (newResponseReader x.message) pieces).state = reader) (hw : w ≠ [])
    (hpre : c.passed ord answers ++ (pieces.flatten ++ w) <+:
      (answers.map fun y => y.wire ord true).flatten) (conn : TCPConnection) :
    let c' := c.proceed (HTTPReader.conclusion conn ({ reader with ec := .success }.read w))
    c'.Received answers ∧
      c'.Receiving ord requests answers (c.passed ord answers ++ (pieces.flatten ++ w)) := by
  subst hstate
  obtain ⟨hpieces', hsnoc, hread⟩ := read_nextPiece hpieces hresult hw
  rw [hsnoc]
  set new := newResponseReader x.message with hnew
  set b := pieces.flatten ++ w with hb
  -- the bytes stand at the front of the responses that were not received
  rw [passed_split, List.prefix_append_right_inj] at hpre
  have hbne : b ≠ [] := by
    rw [hb]
    simp [hw]
  have hlt : c.received.length < answers.length := by
    by_contra hge
    rw [List.drop_eq_nil_of_le (by omega), List.map_nil, List.flatten_nil] at hpre
    exact hbne (List.prefix_nil.1 hpre)
  set y := answers[c.received.length] with hy
  have hnext : answers[c.received.length]? = some y := List.getElem?_eq_getElem hlt
  rw [List.drop_eq_getElem_cons hlt, List.map_cons, List.flatten_cons] at hpre
  have hreads : x.Answers ord y := by
    obtain ⟨x', hx', hreads⟩ := hanswers _ y hnext
    obtain rfl : x = x' := Option.some.inj (hx.symm.trans hx')
    exact hreads
  have hinside : ∀ e, y.wire ord true = b ++ e → e ≠ [] →
      (readAll new (pieces ++ [w])).result = none := by
    intro e heq he
    obtain ⟨v, hscan, -⟩ := hreads []
    rw [List.append_nil, heq] at hscan
    exact (congrArg Prod.fst hread).trans
      (scan_prefix_none he (congrArg Scanned.rest hscan))
  have hwhole : ∀ rest, b = y.wire ord true ++ rest →
      (c.proceed (HTTPReader.conclusion conn (readAll new (pieces ++ [w])))).Received answers ∧
      (c.proceed (HTTPReader.conclusion conn (readAll new (pieces ++ [w])))).Receiving ord requests
        answers (c.passed ord answers ++ b) := by
    intro rest heq
    obtain ⟨v, hscan, hec, harrives, hkeep⟩ := hreads rest
    rw [heq, hscan] at hread
    simp only [observed, Prod.mk.injEq] at hread
    obtain ⟨h1, h2, h3, h4⟩ := hread
    rw [heq]
    exact receiving_whole hc hnext h1 h2 (h3.trans hec) (h4 ▸ harrives) (h4 ▸ hkeep) conn
  -- the buffer ends inside of the next response, just behind it, or later
  obtain ⟨t, ht⟩ := hpre
  rcases List.append_eq_append_iff.1 ht with ⟨e, he, -⟩ | ⟨rest, hrest, -⟩
  · rcases eq_or_ne e [] with rfl | hne
    · exact hwhole [] (by rw [he]; simp)
    · have hnone := hinside e he hne
      simp only [HTTPReader.conclusion, hnone, proceed]
      exact ⟨hc, .reading (pieces ++ [w]) x _ hx rfl hpieces' hnone rfl (by simp [passed, hb])⟩
  · exact hwhole rest hrest

end Client

/-! ### What the server has handled -/

namespace HTTPServer

variable {ι : Type*} {server : HTTPServer ι}

lemma requests_proceed (locked : Bool) (s : Served) (x : TCPConnection × ReadResult) :
    s.requests <+: (server.proceed locked s x).requests ∧
      ∀ r, (server.proceed locked s x).task = .reading r →
        (server.proceed locked s x).requests = s.requests := by
  rw [proceed]
  split
  · exact ⟨List.prefix_refl _, fun _ _ => rfl⟩
  · split
    · exact ⟨List.prefix_append _ _, fun r hr => by cases hr⟩
    · refine ⟨List.prefix_append _ _, fun r hr => ?_⟩
      cases locked <;> cases hr
    all_goals exact ⟨List.prefix_append _ _, fun r hr => by cases hr⟩

/-- Behind a step that leads to a reader that waits, no more requests are handled. -/
lemma requests_step {s s' : Served} {e : ConnectionEvent} (h : server.step s e = some s') :
    s.requests <+: s'.requests ∧ ∀ r, s'.task = .reading r → s'.requests = s.requests := by
  rcases server.step_cases h with ⟨w, reader, -, -, -, rfl⟩ | ⟨reader, -, -, rfl⟩ | ⟨-, -, rfl⟩ |
    ⟨-, rfl⟩ | ⟨b, -, rfl⟩
  · exact requests_proceed _ _ _
  · exact requests_proceed _ _ _
  · rw [finishConnection]
    split_ifs
    · exact requests_proceed _ _ _
    · exact ⟨List.prefix_refl _, fun _ _ => rfl⟩
  · exact ⟨List.prefix_refl _, fun _ _ => rfl⟩
  · exact ⟨List.prefix_refl _, fun _ _ => rfl⟩

variable {requests : List Bytes} {d : Bytes} {s : Served}

/-- More requests may be sent. -/
lemma Serving.append (h : server.Serving requests d s) (more : List Bytes) :
    server.Serving (requests ++ more) d s := by
  cases h with
  | reading handled todo pieces reader hsplit hpassed hlistening hwaits htask hd =>
    exact .reading handled (todo ++ more) pieces reader (by rw [hsplit, List.append_assoc]) hpassed
      hlistening hwaits htask hd
  | answering handled todo rest hsplit hpassed hlistening htask hlifecycle hposition hd =>
    exact .answering handled (todo ++ more) rest (by rw [hsplit, List.append_assoc]) hpassed
      hlistening htask hlifecycle hposition hd

/-- The requests that were handled are the first ones. -/
lemma Serving.passed (h : server.Serving requests d s) {i : ℕ} {q : HTTPMessage × ErrorCode}
    (hq : s.requests[i]? = some q) :
    ∃ r, requests[i]? = some r ∧ q = parsedAlone server.maxContentLength r := by
  obtain ⟨handled, todo, hsplit, hpassed⟩ : ∃ handled todo, requests = handled ++ todo ∧
      s.requests = handled.map (parsedAlone server.maxContentLength) := by
    cases h with
    | reading handled todo _ _ hsplit hpassed => exact ⟨handled, todo, hsplit, hpassed⟩
    | answering handled todo _ hsplit hpassed => exact ⟨handled, todo, hsplit, hpassed⟩
  rw [hpassed, List.getElem?_map, Option.map_eq_some_iff] at hq
  obtain ⟨r, hr, rfl⟩ := hq
  exact ⟨r, by rw [hsplit, Client.getElem?_append_some hr], rfl⟩

/-- While a request is answered the connection is kept alive, and else a reader waits. -/
lemma Serving.task (h : server.Serving requests d s) :
    s.task = .answering ∧ s.conn.getKeepAlive = true ∨ ∃ r, s.task = .reading r := by
  cases h with
  | reading _ _ _ reader _ _ _ _ htask => exact Or.inr ⟨reader, htask⟩
  | answering _ _ rest _ _ _ htask hlifecycle =>
    refine Or.inl ⟨htask, ?_⟩
    rw [TCPConnection.getKeepAlive, hlifecycle]
    split_ifs <;> rfl

end HTTPServer

/-! ### Both sides -/

namespace Exchange

variable {ι : Type*} (ord : HashOrder) (server : HTTPServer ι)

/-- The bytes of some messages on the wire. -/
def text (xs : List Outgoing) : Bytes := (xs.map fun x => x.wire ord true).flatten

lemma text_snoc (xs : List Outgoing) (x : Outgoing) :
    text ord (xs ++ [x]) = text ord xs ++ x.wire ord true := by
  simp [text]

/-- What holds in an exchange at any time. -/
structure Sound (s : Exchange) : Prop where
  requests : ∀ x ∈ s.requests, x.message.isRequest = true ∧ x.Fits
  served : ∃ d, d ++ s.toServer = text ord s.requests ∧
    server.Serving (s.requests.map fun x => x.wire ord true) d s.served
  answered : ∀ r, s.served.task = .reading r → s.answers.length = s.served.requests.length
  answers : ∀ (i : ℕ) (y : Outgoing), s.answers[i]? = some y →
    ∃ q, s.served.requests[i]? = some q ∧ y.IsAnswerTo q.1
  received : s.client.Received s.answers
  receiving : ∃ d, d ++ s.toClient = text ord s.answers ∧
    s.client.Receiving ord s.requests s.answers d

variable {ord server} {s : Exchange}

namespace Sound

lemma keepsAlive (hmax : server.maxContentLength = defaultContentMax) (hs : s.Sound ord server) :
    ∀ r ∈ s.requests.map fun x => x.wire ord true, KeepsAlive server.maxContentLength r := by
  intro r hr
  obtain ⟨x, hx, rfl⟩ := List.mem_map.1 hr
  rw [hmax]
  exact (Outgoing.keepsAlive ord (hs.requests x hx).1 (hs.requests x hx).2).1

/-- The requests arrive as they were meant. -/
lemma arrived (hmax : server.maxContentLength = defaultContentMax) (hs : s.Sound ord server) {i : ℕ}
    {q : HTTPMessage × ErrorCode} (hq : s.served.requests[i]? = some q) :
    ∃ x, s.requests[i]? = some x ∧ x.Arrives q.1 ∧ q.2 = .success := by
  obtain ⟨d, -, hserving⟩ := hs.served
  obtain ⟨r, hr, rfl⟩ := hserving.passed hq
  rw [List.getElem?_map, Option.map_eq_some_iff] at hr
  obtain ⟨x, hx, rfl⟩ := hr
  obtain ⟨hrequest, hfits⟩ := hs.requests x (List.mem_of_getElem? hx)
  rw [hmax]
  exact ⟨x, hx, (Outgoing.keepsAlive ord hrequest hfits).2, rfl⟩

/-- Each response is read as the answer to the request at its place. -/
lemma answerAll (hmax : server.maxContentLength = defaultContentMax) (hs : s.Sound ord server) :
    Outgoing.AnswerAll ord s.requests s.answers := by
  intro i y hy
  obtain ⟨q, hq, ⟨x0, rfl⟩, hresponse, hfits⟩ := hs.answers i y hy
  obtain ⟨x, hx, harrives, -⟩ := hs.arrived hmax hq
  exact ⟨x, hx, Outgoing.answers_answerTo ord harrives hresponse hfits⟩

/-- The state of a client that does not wait: its connection is kept alive. -/
lemma getKeepAlive (hs : s.Sound ord server) (hreader : s.client.reader = none) :
    s.client.conn.getKeepAlive = true := by
  obtain ⟨d, -, hreceiving⟩ := hs.receiving
  cases hreceiving with
  | reading _ _ reader _ htask => cases hreader.symm.trans htask
  | idle rest _ hlifecycle =>
    rw [TCPConnection.getKeepAlive, hlifecycle]
    split_ifs <;> rfl

lemma step_send (hs : s.Sound ord server) {x : Outgoing} (hreader : s.client.reader = none)
    (hrequest : x.message.isRequest = true) (hx : x.Fits) :
    Sound ord server { s with
      requests := s.requests ++ [x]
      toServer := s.toServer ++ x.wire ord s.client.conn.getKeepAlive } := by
  obtain ⟨d, hd, hserving⟩ := hs.served
  obtain ⟨d', hd', hreceiving⟩ := hs.receiving
  refine ⟨?_, ⟨d, ?_, ?_⟩, hs.answered, hs.answers, hs.received, d', hd', ?_⟩
  · intro x' hx'
    rcases List.mem_append.1 hx' with hx' | hx'
    · exact hs.requests x' hx'
    · rw [List.mem_singleton.1 hx']
      exact ⟨hrequest, hx⟩
  · rw [text_snoc, ← hd, hs.getKeepAlive hreader, List.append_assoc]
  · rw [List.map_append]
    exact hserving.append _
  · have h := hreceiving.append hs.received [x] []
    rwa [List.append_nil] at h

/-- What the server has handled only grows, so that each answer keeps its request. -/
lemma answers_of_prefix (hs : s.Sound ord server) {served : Served}
    (hpre : s.served.requests <+: served.requests) (i : ℕ) (y : Outgoing)
    (hy : s.answers[i]? = some y) : ∃ q, served.requests[i]? = some q ∧ y.IsAnswerTo q.1 := by
  obtain ⟨q, hq, h⟩ := hs.answers i y hy
  obtain ⟨more, hmore⟩ := hpre
  exact ⟨q, hmore ▸ Client.getElem?_append_some hq, h⟩

/-- A step of the server, with the bytes that are taken from those in flight. -/
lemma step_server (hmax : server.maxContentLength = defaultContentMax) (hs : s.Sound ord server)
    {e : ConnectionEvent} {served : Served} {rest : Bytes} (he : HTTPServer.IsTransfer e)
    (hstep : server.step s.served e = some served) (hrest : s.toServer = delivered [e] ++ rest)
    (hanswered : s.answers.length = s.served.requests.length) :
    Sound ord server { s with served := served, toServer := rest } := by
  obtain ⟨d, hd, hserving⟩ := hs.served
  obtain ⟨hpre, hsame⟩ := HTTPServer.requests_step hstep
  have hkeeps := hs.keepsAlive hmax
  rw [hrest, ← List.append_assoc] at hd
  exact
    { requests := hs.requests
      served := ⟨d ++ delivered [e], hd,
        server.serving_step hkeeps hserving he hstep ⟨rest, hd⟩⟩
      answered := fun r hr => hanswered.trans (congrArg List.length (hsame r hr).symm)
      answers := hs.answers_of_prefix hpre
      received := hs.received
      receiving := hs.receiving }

lemma step_answer (hs : s.Sound ord server) {x : Outgoing} {q : HTTPMessage × ErrorCode}
    (hq : s.served.requests[s.answers.length]? = some q)
    (hresponse : (x.answerTo q.1).message.isRequest = false) (hx : (x.answerTo q.1).Fits) :
    Sound ord server { s with
      answers := s.answers ++ [x.answerTo q.1]
      toClient := s.toClient ++ (x.answerTo q.1).wire ord s.served.conn.getKeepAlive } := by
  obtain ⟨d, hd, hserving⟩ := hs.served
  obtain ⟨d', hd', hreceiving⟩ := hs.receiving
  -- a request is being answered, since there is one without a response
  have hnot : ∀ r, s.served.task ≠ .reading r := by
    intro r hr
    rw [hs.answered r hr] at hq
    simp at hq
  have hkeep : s.served.conn.getKeepAlive = true :=
    (hserving.task.resolve_right fun ⟨r, hr⟩ => hnot r hr).2
  refine ⟨hs.requests, ⟨d, hd, hserving⟩, fun r hr => absurd hr (hnot r), ?_,
    hs.received.append _, d', ?_, ?_⟩
  · intro i y hy
    rw [List.getElem?_append] at hy
    split_ifs at hy with hi
    · exact hs.answers i y hy
    · obtain ⟨hzero, rfl⟩ : i - s.answers.length = 0 ∧ x.answerTo q.1 = y := by
        simpa using List.getElem?_eq_some_iff.1 hy
      obtain rfl : i = s.answers.length := by omega
      exact ⟨q, hq, ⟨x, rfl⟩, hresponse, hx⟩
  · rw [text_snoc, ← hd', hkeep, List.append_assoc]
  · have h := hreceiving.append hs.received [] [x.answerTo q.1]
    rwa [List.append_nil] at h

lemma step_receive (hmax : server.maxContentLength = defaultContentMax) (hs : s.Sound ord server)
    {x : Outgoing} (hreader : s.client.reader = none)
    (hx : s.requests[s.client.received.length]? = some x) :
    Sound ord server { s with client := s.client.receive x.message } := by
  obtain ⟨d, hd, hreceiving⟩ := hs.receiving
  have hgoes : (s.client.receive x.message).Received s.answers ∧
      (s.client.receive x.message).Receiving ord s.requests s.answers d := by
    cases hreceiving with
    | reading _ _ reader _ htask => cases hreader.symm.trans htask
    | idle rest _ hlifecycle hposition hdelivered =>
      rw [Client.receive, HTTPReader.receive_eq]
      by_cases hrest : rest = []
      · have hpipe : ¬ s.client.conn.getPipelined = true := by
          simp [TCPConnection.getPipelined, hlifecycle, hrest]
        rw [if_neg hpipe]
        exact ⟨hs.received, .reading [] x _ hx rfl (by simp) rfl rfl
          (by rw [hdelivered, hrest]; rfl)⟩
      · have hpipe : s.client.conn.getPipelined = true := by
          simp [TCPConnection.getPipelined, hlifecycle, hrest]
        rw [if_pos hpipe, hposition hrest]
        rw [hdelivered] at hd ⊢
        have hpieces : ∀ v ∈ ([] : List Bytes), v ≠ [] := by simp
        exact Client.receiving_buffer (hs.answerAll hmax) hs.received hx hpieces rfl rfl hrest
          ⟨s.toClient, hd⟩ _
  exact ⟨hs.requests, hs.served, hs.answered, hs.answers, hgoes.1, d, hd, hgoes.2⟩

lemma step_clientRead (hmax : server.maxContentLength = defaultContentMax)
    (hs : s.Sound ord server) {w rest : Bytes} {reader : Session}
    (hreader : s.client.reader = some reader) (hw : w ≠ []) (hrest : s.toClient = w ++ rest) :
    Sound ord server { s with
      client := s.client.proceed (HTTPReader.consumeRead s.client.conn reader w)
      toClient := rest } := by
  obtain ⟨d, hd, hreceiving⟩ := hs.receiving
  rw [hrest, ← List.append_assoc] at hd
  cases hreceiving with
  | idle _ hnone => cases hnone.symm.trans hreader
  | reading pieces x _ hx htask hpieces hresult hstate hdelivered =>
    obtain rfl : reader = _ := Option.some.inj (hreader.symm.trans htask)
    rw [HTTPReader.consumeRead_eq]
    rw [hdelivered, List.append_assoc _ pieces.flatten] at hd
    obtain ⟨hreceived, hnext⟩ := Client.receiving_buffer (hs.answerAll hmax) hs.received hx hpieces
      hresult hstate hw ⟨rest, hd⟩ s.client.conn
    exact ⟨hs.requests, hs.served, hs.answered, hs.answers, hreceived, _, hd, hnext⟩

/-- Every step keeps the exchange sound. -/
lemma step (hmax : server.maxContentLength = defaultContentMax) (hs : s.Sound ord server)
    {e : ExchangeEvent} {s' : Exchange} (h : s.step ord server e = some s') :
    s'.Sound ord server := by
  rcases step_cases ord server h with ⟨x, -, hreader, hrequest, hx, rfl⟩ |
    ⟨w, rest, served, -, hrest, hserved, rfl⟩ | ⟨x, q, -, hq, hresponse, hx, rfl⟩ |
    ⟨served, -, hlength, hserved, rfl⟩ | ⟨x, -, hreader, hx, rfl⟩ |
    ⟨w, rest, reader, -, hreader, hw, hrest, rfl⟩
  · exact hs.step_send hreader hrequest hx
  · have hreading : ∃ r, s.served.task = .reading r := by
      rcases server.step_cases hserved with ⟨_, r, -, htask, -⟩ | ⟨_, h, -⟩ | ⟨h, -⟩ | ⟨h, -⟩ |
        ⟨_, h, -⟩
      · exact ⟨r, htask⟩
      all_goals cases h
    obtain ⟨r, hr⟩ := hreading
    exact hs.step_server hmax (Or.inr ⟨w, rfl⟩) hserved
      (hrest.trans (congrArg (· ++ rest) (List.append_nil w).symm)) (hs.answered r hr)
  · exact hs.step_answer hq hresponse hx
  · exact hs.step_server hmax (Or.inl rfl) hserved rfl hlength
  · exact hs.step_receive hmax hreader hx
  · exact hs.step_clientRead hmax hreader hw hrest

/-- A connection that was made is sound, and so is it behind every run. -/
lemma of_run (hmax : server.maxContentLength = defaultContentMax) {events : List ExchangeEvent}
    (h : run (Exchange.step ord server) (start server) events = some s) : s.Sound ord server := by
  refine run_invariant (P := Sound ord server) (fun _ _ _ ht hstep => ht.step hmax hstep) ?_ h
  refine ⟨by simp [start], ⟨[], rfl, ?_⟩, fun _ _ => rfl, by simp [start], ?_, [], rfl, ?_⟩
  · exact .reading [] [] [] _ rfl rfl rfl ⟨by simp, rfl, rfl⟩ rfl rfl
  · intro i r hr
    simp [start] at hr
  · exact .idle [] rfl rfl (by simp) rfl

end Sound

/-- Each request was handled in its place as it was sent, and each response was received in its
place as it was sent for the request. -/
def InOrder (s : Exchange) : Prop :=
  (∀ (i : ℕ) (q : HTTPMessage × ErrorCode), s.served.requests[i]? = some q →
    ∃ x, s.requests[i]? = some x ∧ x.Arrives q.1 ∧ q.2 = .success) ∧
  ∀ (i : ℕ) (r : HTTPMessage × ErrorCode), s.client.received[i]? = some r →
    ∃ q y, s.served.requests[i]? = some q ∧ s.answers[i]? = some y ∧ y.IsAnswerTo q.1 ∧
      y.Arrives r.1 ∧ r.2 = .success

/-- There is a response to any request. -/
lemma exists_answer (q : HTTPMessage) :
    ((⟨.newResponse [], []⟩ : Outgoing).answerTo q).message.isRequest = false ∧
      ((⟨.newResponse [], []⟩ : Outgoing).answerTo q).Fits := by
  have hline : responseCodeOk < uint16Mod ∧ IsText responseMessageOk ∧
      responseMessageOk.length ≤ statusMessageMax := by decide
  have hversion : 1 < uint16Mod := by decide
  exact ⟨rfl,
    { line := hline
      major := hversion
      minor := hversion
      version := Or.inr ⟨Nat.le_refl 1, Nat.le_refl 1⟩
      fresh := Or.inl rfl
      headers := fun e he => absurd he List.not_mem_nil
      notChunked := rfl
      sendsLength := rfl
      first := fun h => nomatch (h : none = some (0 : Byte))
      size := Nat.zero_le _
      empty := fun _ => rfl
      implied := fun _ => rfl }⟩

namespace Sound

/-- A request that is being answered can be answered, or the server can turn to the next one. -/
lemma answering (hs : s.Sound ord server) (htask : s.served.task = .answering) :
    ∃ e, e.isClientCall = false ∧ (s.step ord server e).isSome = true := by
  cases hq : s.served.requests[s.answers.length]? with
  | some q =>
    obtain ⟨hresponse, hfits⟩ := exists_answer q.1
    refine ⟨.answer ⟨.newResponse [], []⟩, rfl, ?_⟩
    simp only [Exchange.step, hq]
    rw [if_pos ⟨hresponse, hfits⟩]
    rfl
  | none =>
    have hle : s.served.requests.length ≤ s.answers.length := List.getElem?_eq_none_iff.1 hq
    have hlength : s.answers.length = s.served.requests.length := by
      rcases Nat.lt_or_ge s.served.requests.length s.answers.length with hlt | hge
      · obtain ⟨q, hnone, -⟩ := hs.answers _ _ (List.getElem?_eq_getElem hlt)
        simp at hnone
      · omega
    refine ⟨.finish, rfl, ?_⟩
    simp only [Exchange.step, if_pos hlength, HTTPServer.step, htask, Option.map_some]
    rfl

end Sound

end Exchange

end PionCore.Net
