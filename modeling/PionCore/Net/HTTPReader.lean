/-
# Connections and readers

`HTTPReader`: a reader takes a message from a connection.  Bytes that are left in the read buffer
behind a message stay there, and their position is saved in the connection for the next reader.
-/
import PionCore.Net.Accepted

namespace PionCore.Net

open PionCore.Lib

/-- `TCPConnection::LifecycleType`. -/
inductive LifecycleType where
  | close | keepAlive | pipelined
deriving DecidableEq

/-- `TCPConnection::READ_BUFFER_SIZE`. -/
def readBufferSize : ℕ := 8192

/-- `TCPConnection`.  A saved read position is the bytes between its two pointers, which stay in
the read buffer until the connection is read again. -/
structure TCPConnection where
  lifecycle : LifecycleType := .close
  readPosition : Bytes := []
  isOpen : Bool := true
deriving DecidableEq

namespace TCPConnection

def setLifecycle (conn : TCPConnection) (t : LifecycleType) : TCPConnection :=
  { conn with lifecycle := t }

def getKeepAlive (conn : TCPConnection) : Bool := conn.lifecycle ≠ .close

def getPipelined (conn : TCPConnection) : Bool := conn.lifecycle = .pipelined

def saveReadPosition (conn : TCPConnection) (w : Bytes) : TCPConnection :=
  { conn with readPosition := w }

end TCPConnection

namespace HTTPMessage

def checkKeepAlive (m : HTTPMessage) : Bool :=
  m.getHeader headerConnection ≠ ascii "close" ∧
    (m.versionMajor > 1 ∨ m.versionMajor ≥ 1 ∧ m.versionMinor ≥ 1)

end HTTPMessage

/-- How a reader goes on: it waits for bytes, or has called `finishedReading`. -/
inductive ReadResult where
  | readBytes (reader : Session)
  | finishedReading (msg : HTTPMessage) (ec : ErrorCode)
deriving DecidableEq

/-! ### `HTTPReader`

The reader is its parser with the message that it fills in; the error code is a variable of
`consumeBytes`. -/

namespace HTTPReader

/-- `consumeBytes` of the bytes in the read buffer. -/
def consumeBytes (conn : TCPConnection) (reader : Session) : TCPConnection × ReadResult :=
  let (result, reader) := { reader with ec := .success }.parse
  match result with
  | .yes =>
      let conn :=
        if reader.msg.checkKeepAlive then
          if reader.parser.eof then conn.setLifecycle .keepAlive
          else (conn.setLifecycle .pipelined).saveReadPosition reader.parser.readBuf
        else conn.setLifecycle .close
      (conn, .finishedReading reader.msg reader.ec)
  | .no =>
      (conn.setLifecycle .close, .finishedReading { reader.msg with isValid := false } reader.ec)
  | .indeterminate => (conn, .readBytes reader)

/-- `consumeBytes` behind a read. -/
def consumeRead (conn : TCPConnection) (reader : Session) (w : Bytes) :
    TCPConnection × ReadResult :=
  consumeBytes conn (reader.setReadBuffer w)

/-- `handleReadError`. -/
def handleReadError (conn : TCPConnection) (reader : Session) (readError : ErrorCode) :
    TCPConnection × ReadResult :=
  let conn := conn.setLifecycle .close
  let (premature, reader) := reader.checkPrematureEOF
  if ! premature then (conn, .finishedReading reader.msg .success)
  else (conn, .finishedReading reader.msg readError)

/-- `receive`. -/
def receive (conn : TCPConnection) (reader : Session) : TCPConnection × ReadResult :=
  if conn.getPipelined then
    consumeBytes (conn.setLifecycle .close) (reader.setReadBuffer conn.readPosition)
  else (conn.setLifecycle .close, .readBytes reader)

end HTTPReader

namespace HTTPReader

/-- How the connection goes on behind a message that is valid: the bytes behind it are kept. -/
def keep (conn : TCPConnection) (m : HTTPMessage) (rest : Bytes) : TCPConnection :=
  if m.checkKeepAlive then
    if rest = [] then conn.setLifecycle .keepAlive
    else (conn.setLifecycle .pipelined).saveReadPosition rest
  else conn.setLifecycle .close

/-- What a reader makes of the outcome of its parser. -/
def conclusion (conn : TCPConnection) (x : Scanned Byte Session Tribool) :
    TCPConnection × ReadResult :=
  match x.result with
  | some .yes => (keep conn x.state.msg x.rest, .finishedReading x.state.msg x.state.ec)
  | some .no =>
      (conn.setLifecycle .close, .finishedReading { x.state.msg with isValid := false } x.state.ec)
  | none | some .indeterminate => (conn, .readBytes x.state)

/-- The bytes that are read are handed to the parser. -/
lemma consumeRead_eq (conn : TCPConnection) (reader : Session) (w : Bytes) :
    consumeRead conn reader w = conclusion conn ({ reader with ec := .success }.read w) := by
  have hsame : { reader.setReadBuffer w with ec := .success } =
      Session.setReadBuffer { reader with ec := .success } w := rfl
  rw [consumeRead, consumeBytes, hsame, Session.read]
  rcases (Session.setReadBuffer { reader with ec := .success } w).parse with ⟨rc, u⟩
  cases rc with
  | yes =>
    simp only [conclusion, Session.outcome, Session.known, keep, HTTPParser.eof,
      decide_eq_true_eq]
    rfl
  | no => rfl
  | indeterminate => rfl

lemma receive_eq (conn : TCPConnection) (reader : Session) :
    receive conn reader =
      if conn.getPipelined then
        conclusion (conn.setLifecycle .close) ({ reader with ec := .success }.read conn.readPosition)
      else (conn.setLifecycle .close, .readBytes reader) := by
  rw [← consumeRead_eq]
  rfl

@[simp] lemma isOpen_conclusion (conn : TCPConnection) (x : Scanned Byte Session Tribool) :
    (conclusion conn x).1.isOpen = conn.isOpen := by
  rw [conclusion, keep]
  split
  · split_ifs <;> rfl
  · rfl
  · rfl
  · rfl

@[simp] lemma isOpen_receive (conn : TCPConnection) (reader : Session) :
    (receive conn reader).1.isOpen = conn.isOpen := by
  rw [receive_eq]
  split_ifs
  · exact isOpen_conclusion _ _
  · rfl

@[simp] lemma isOpen_handleReadError (conn : TCPConnection) (reader : Session) (ec : ErrorCode) :
    (handleReadError conn reader ec).1.isOpen = conn.isOpen := by
  rw [handleReadError]
  dsimp only
  split_ifs <;> rfl

end HTTPReader

/-! ### Error codes

A byte at which the parser gives up sets the error code, with one exception: the first byte of a
name behind blanks at the start of a line. -/

/-- A header line begins with blanks, and a name follows at this byte. -/
def HeaderMachine.FoldsAt (h : HeaderMachine) (c : Byte) : Prop :=
  h.headersParseState = .parseHeaderWhitespace ∧ c ≠ 13 ∧ c ≠ 10 ∧ c ≠ 9 ∧ c ≠ 32 ∧
    badTokenChar c = false

/-- The only failure without an error code. -/
lemma failed_none_iff {isRequest b : Bool} {h : HeaderMachine} {m : HTTPMessage} {c : Byte}
    {t : HeaderMachine × HTTPMessage} :
    parseHeadersSwitch isRequest h m c = .stop b (.failed none) t ↔
      h.FoldsAt c ∧ b = false ∧ t = (h, m) := by
  constructor
  · intro hstop
    have hsame := parseHeadersSwitch_stop hstop
    refine ⟨?_, ?_, hsame⟩ <;>
    · unfold parseHeadersSwitch parseHeaderNameStart parseHttpLetter at hstop
      dsimp only at hstop
      split at hstop <;> (try split_ifs at hstop) <;> cases hstop
      simp_all [HeaderMachine.FoldsAt]
  · rintro ⟨⟨hst, h1, h2, h3, h4, hok⟩, rfl, rfl⟩
    simp [parseHeadersSwitch, hst, h1, h2, h3, h4, hok]

lemma parseChunksChar_failed {maxContentLength : ℕ} {s t : ChunkMachine × Bytes} {c : Byte}
    {b : Bool} {ev : Option ErrorValue}
    (h : parseChunksChar maxContentLength s c = .stop b (.failed ev) t) : ev ≠ none := by
  unfold parseChunksChar parseExpected at h
  dsimp only at h
  split at h <;> (try split_ifs at h) <;> cases h <;> simp

namespace Session

lemma ec_conclude (rc : Tribool) (s : Session) : (conclude rc s).2.ec = s.ec := by
  cases rc <;> rfl

/-- The end of the header sets the error code if and only if the length is invalid. -/
lemma ec_finishHeaderParsing {s u : Session} {rc : Tribool} (h : s.finishHeaderParsing = (rc, u)) :
    rc = .no ∧ u.ec = .parser .invalidContentLength ∨ rc ≠ .no ∧ u.ec = s.ec := by
  have hfollows : s.bodyFollows ≠ .no := by
    rw [bodyFollows]
    split_ifs <;> simp
  rw [finishHeaderParsing_eq] at h
  cases hf : framing s.parser.isRequest s.headed <;> rw [hf] at h <;>
    obtain ⟨rfl, rfl⟩ := Prod.mk.inj h
  · exact Or.inr ⟨hfollows, rfl⟩
  · exact Or.inr ⟨by simp, rfl⟩
  · exact Or.inl ⟨rfl, rfl⟩
  · exact Or.inr ⟨hfollows, rfl⟩
  · exact Or.inr ⟨hfollows, rfl⟩

lemma ec_bodyTurn_next {s s' : Session} {c : Byte} (h : s.bodyTurn c = .next s') :
    s'.ec = s.ec := by
  rcases bodyTurn_next h with ⟨-, t, -, rfl⟩ | ⟨-, -, rfl⟩ | ⟨-, rfl⟩ <;> rfl

/-- A byte with which no result is reached leaves the error code alone. -/
lemma ec_byteTurn {s s' : Session} {c : Byte} (hs : s.InHeaders ∨ s.InBody)
    (h : s.byteTurn c = .next s') : s'.ec = s.ec := by
  rcases hs with hs | hs
  · rw [byteTurn_headers hs] at h
    rcases headerTurn_next h with ⟨t, -, rfl⟩ | ⟨-, u, hu, hnext⟩
    · rfl
    · have hu' : u.ec = s.ec := ((ec_finishHeaderParsing hu).resolve_left (by simp)).2
      rcases hnext with rfl | hnext
      · exact hu'
      · exact (ec_bodyTurn_next hnext).trans hu'
  · rw [byteTurn_body hs] at h
    exact ec_bodyTurn_next h

/-- What a result says about the error code. -/
def Explains (s : Session) (rc : Tribool) (s' : Session) : Prop :=
  rc = .yes ∧ s'.ec = s.ec ∨ rc = .no ∧ ∃ ev, s'.ec = .parser ev

/-- A message that is refused in its body has an error code of the parser. -/
lemma explains_bodyTurn {s s' : Session} {c : Byte} {b : Bool} {rc : Tribool} (hs : s.InBody)
    (h : s.bodyTurn c = .stop b rc s') : s.Explains rc s' := by
  rw [bodyTurn] at h
  rcases hs with hst | hst | hst
  · simp only [hst, chunkTurn, phaseTurn] at h
    split at h
    · cases h
    · rename_i b' r t ht
      cases r with
      | done =>
        simp only [leaveChunks, Turn.stop.injEq] at h
        obtain ⟨-, rfl, rfl⟩ := h
        exact Or.inl ⟨rfl, ec_conclude .yes _⟩
      | failed ev =>
        obtain ⟨ev, rfl⟩ := Option.ne_none_iff_exists'.1 (parseChunksChar_failed ht)
        simp only [leaveChunks, Turn.stop.injEq] at h
        obtain ⟨-, rfl, rfl⟩ := h
        exact Or.inr ⟨rfl, ev, ec_conclude .no _⟩
  · simp only [hst, contentTurn] at h
    split_ifs at h
    cases h
    exact Or.inl ⟨rfl, ec_conclude .yes _⟩
  · simp [hst, contentNoLengthTurn] at h

lemma explains_scan_body {s : Session} (hs : s.InBody) {w : Bytes} {rc : Tribool}
    (h : (scan byteTurn s w).result = some rc) : s.Explains rc (scan byteTurn s w).state := by
  refine scan_closed (P := fun t => t.InBody ∧ t.ec = s.ec) (Q := fun r t => s.Explains r t)
    ?_ ?_ ⟨hs, rfl⟩ h
  · rintro t c t' ⟨ht, hec⟩ hnext
    have hbody : t.bodyTurn c = .next t' := (byteTurn_body ht c).symm.trans hnext
    exact ⟨inBody_bodyTurn ht hbody, (ec_bodyTurn_next hbody).trans hec⟩
  · rintro t c b r t' ⟨ht, hec⟩ hstop
    have hturn := explains_bodyTurn ht ((byteTurn_body ht c).symm.trans hstop)
    rwa [Explains, hec] at hturn

end Session

/-! ### New readers -/

/-- A reader of requests as it comes from its constructor. -/
def newReader (maxContentLength : ℕ) : Session :=
  newSession true maxContentLength false false (.newRequest []) .success

/-- The header of a request has a line that begins with blanks behind which a name follows. -/
def FoldsHeader (w : Bytes) : Prop :=
  ∃ u c v t, w = u ++ c :: v ∧
    scan (parseHeadersChar true false)
      ({ headersParseState := initialHeadersState true }, .newRequest []) u = ⟨none, [], t⟩ ∧
    t.1.FoldsAt c

lemma foldsHeader_iff {w : Bytes} :
    FoldsHeader w ↔ (scan (parseHeadersChar true false)
      ({ headersParseState := initialHeadersState true }, .newRequest []) w).result =
        some (.failed none) := by
  rw [scan_result_iff]
  constructor
  · rintro ⟨u, c, v, t, rfl, hu, ht⟩
    exact ⟨u, c, v, t, false, t, rfl, hu, failed_none_iff.2 ⟨ht, rfl, rfl⟩⟩
  · rintro ⟨u, c, v, t, b, t', rfl, hu, ht⟩
    exact ⟨u, c, v, t, rfl, hu, (failed_none_iff.1 ht).1⟩

namespace Session

/-- A new reader refuses a folded header without an error code, and whatever else it refuses with
one. -/
lemma scan_newReader (maxContentLength : ℕ) {w : Bytes} (hw : w ≠ []) :
    let y := scan byteTurn (newReader maxContentLength) w
    FoldsHeader w ∧ y.result = some .no ∧ y.state.ec = .success ∨
      ¬ FoldsHeader w ∧
        ∀ rc, y.result = some rc → (newReader maxContentLength).Explains rc y.state := by
  intro y
  rw [foldsHeader_iff]
  set s := newReader maxContentLength with hs
  have hscan : y = _ := scan_headers (s := s) (Or.inl rfl) hw
  have hheader : scan (parseHeadersChar s.parser.isRequest s.parser.saveRawHeaders)
      (s.parser.header, s.msg) w = scan (parseHeadersChar true false)
        ({ headersParseState := initialHeadersState true }, .newRequest []) w := rfl
  rw [hheader] at hscan
  clear_value y
  subst hscan
  generalize scan (parseHeadersChar true false)
    ({ headersParseState := initialHeadersState true }, HTTPMessage.newRequest []) w = x
  obtain ⟨result, rest, t⟩ := x
  cases result with
  | none => exact Or.inr ⟨by simp, fun rc h => by cases h⟩
  | some r =>
    cases r with
    | failed ev =>
      cases ev with
      | none => exact Or.inl ⟨rfl, rfl, rfl⟩
      | some ev =>
        refine Or.inr ⟨by simp, fun rc h => ?_⟩
        obtain rfl : Tribool.no = rc := Option.some.inj h
        exact Or.inr ⟨rfl, ev, rfl⟩
    | done =>
      refine Or.inr ⟨by simp, fun rc h => ?_⟩
      simp only [leavePhase, leaveHeaders] at h ⊢
      rcases hfinish : (s.atHeaders t).finishHeaderParsing with ⟨rc', u⟩
      have hec := ec_finishHeaderParsing hfinish
      rw [hfinish] at h
      cases rc' with
      | yes =>
        obtain rfl : Tribool.yes = rc := Option.some.inj h
        exact Or.inl ⟨rfl, (hec.resolve_left (by simp)).2⟩
      | no =>
        obtain rfl : Tribool.no = rc := Option.some.inj h
        exact Or.inr ⟨rfl, _, (hec.resolve_right (by simp)).2⟩
      | indeterminate =>
        have hbody := explains_scan_body (finishHeaderParsing_open hfinish).1 h
        rwa [Explains, (hec.resolve_left (by simp)).2] at hbody

/-- The first buffer of a new reader is read as the machine reads its bytes. -/
lemma observed_read_newReader (maxContentLength : ℕ) (w : Bytes) (hw : w ≠ []) :
    observed ((newReader maxContentLength).read w) =
      observed (scan byteTurn (newReader maxContentLength) w) := by
  have hready : (newReader maxContentLength).Ready := newSession_ready _ _ _ _ _ _
  have h := parse_refines.run _ w hready hw
  rw [id_eq, scan_dataTurn hready hw] at h
  exact observed_of_forget h

lemma read_newReader (maxContentLength : ℕ) {w : Bytes} (hw : w ≠ []) :
    let x := (newReader maxContentLength).read w
    FoldsHeader w ∧ x.result = some .no ∧ x.state.ec = .success ∨
      ¬ FoldsHeader w ∧
        ∀ rc, x.result = some rc → (newReader maxContentLength).Explains rc x.state := by
  have hread := observed_read_newReader maxContentLength w hw
  simp only [observed, Prod.mk.injEq] at hread
  have hscan := scan_newReader maxContentLength hw
  simp only [Explains] at hscan ⊢
  rwa [hread.1, hread.2.2.1]

/-- A message with a positive result is valid. -/
lemma isValid_of_read {s : Session} {w : Bytes} (h : (s.read w).result = some .yes) :
    (s.read w).state.msg.isValid = true := by
  revert h
  rw [read, parse]
  rcases parseLoop maxRounds 0 (s.setReadBuffer w).markData with ⟨rc, total, u⟩
  intro h
  cases rc with
  | yes => exact conclude_yes_isValid u
  | no => cases h
  | indeterminate => cases h

end Session

end PionCore.Net
