/-
# The parser as a machine on single bytes

What the parser is for, without buffers: `byteTurn` says what becomes of a parser and its
message when one more byte arrives.  `parse_refines` relates a call of `parse` on a
buffer to the turns of this machine over the bytes of the buffer.
-/
import PionCore.Net.HTTPParser

namespace PionCore.Net

open PionCore.Lib

/-! ### What the header machine changes -/

namespace HTTPMessage

/-- A message without the members that the lines of the header determine. -/
def withoutHead (m : HTTPMessage) : HTTPMessage :=
  { m with
    kind := .response ⟨0, [], []⟩, firstLine := [], versionMajor := 0, versionMinor := 0
    headers := [], cookieParams := [] }

/-- The flags that tell of missing packets. -/
def gaps (m : HTTPMessage) : Bool × Bool := (m.hasMissingPackets, m.hasDataAfterMissing)

lemma gaps_eq {m m' : HTTPMessage} (h : m.withoutHead = m'.withoutHead) : m.gaps = m'.gaps :=
  (congrArg gaps h : m.withoutHead.gaps = m'.withoutHead.gaps)

@[simp] lemma withoutHead_setVersionMajor (m : HTTPMessage) (n : ℕ) :
    (m.setVersionMajor n).withoutHead = m.withoutHead := rfl

@[simp] lemma withoutHead_setVersionMinor (m : HTTPMessage) (n : ℕ) :
    (m.setVersionMinor n).withoutHead = m.withoutHead := rfl

@[simp] lemma withoutHead_addHeader (m : HTTPMessage) (k v : Bytes) :
    (m.addHeader k v).withoutHead = m.withoutHead := rfl

@[simp] lemma withoutHead_setMethod (m : HTTPMessage) (s : Bytes) :
    (m.setMethod s).withoutHead = m.withoutHead := by
  rw [setMethod]
  split <;> rfl

@[simp] lemma withoutHead_setResource (m : HTTPMessage) (s : Bytes) :
    (m.setResource s).withoutHead = m.withoutHead := by
  rw [setResource]
  split <;> rfl

@[simp] lemma withoutHead_setQueryString (m : HTTPMessage) (s : Bytes) :
    (m.setQueryString s).withoutHead = m.withoutHead := by
  rw [setQueryString]
  split <;> rfl

@[simp] lemma withoutHead_setQueryParams (m : HTTPMessage) (d : StringDictionary) :
    (m.setQueryParams d).withoutHead = m.withoutHead := by
  rw [setQueryParams]
  split <;> rfl

@[simp] lemma withoutHead_setStatusCode (m : HTTPMessage) (n : ℕ) :
    (m.setStatusCode n).withoutHead = m.withoutHead := by
  rw [setStatusCode]
  split <;> rfl

@[simp] lemma withoutHead_setStatusMessage (m : HTTPMessage) (s : Bytes) :
    (m.setStatusMessage s).withoutHead = m.withoutHead := by
  rw [setStatusMessage]
  split <;> rfl

@[simp] lemma withoutHead_parseCookieHeaders (m : HTTPMessage) (name : Bytes) (b : Bool) :
    (parseCookieHeaders m name b).withoutHead = m.withoutHead := rfl

@[simp] lemma withoutHead_updateMessageWithHeaderData (b : Bool) (p : HeaderMachine)
    (m : HTTPMessage) : (updateMessageWithHeaderData b p m).withoutHead = m.withoutHead := by
  rw [updateMessageWithHeaderData]
  dsimp only
  split_ifs <;> simp

@[simp] lemma withoutHead_parsePostContent (b : Bool) (m : HTTPMessage) :
    (parsePostContent b m).withoutHead = m.withoutHead := by
  rw [parsePostContent]
  split_ifs <;> simp

end HTTPMessage

/-- A byte that the header machine consumes changes the head of the message only. -/
lemma parseHeadersSwitch_next {isRequest : Bool} {p : HeaderMachine} {m : HTTPMessage} {c : Byte}
    {s : HeaderMachine × HTTPMessage} (h : parseHeadersSwitch isRequest p m c = .next s) :
    s.2.withoutHead = m.withoutHead := by
  unfold parseHeadersSwitch parseHeaderNameStart parseHttpLetter at h
  dsimp only at h
  split at h <;> (try split_ifs at h) <;> cases h <;> rfl

/-- A byte at which the header machine stops changes nothing. -/
lemma parseHeadersSwitch_stop {isRequest : Bool} {p : HeaderMachine} {m : HTTPMessage} {c : Byte}
    {b : Bool} {r : LoopEnd} {s : HeaderMachine × HTTPMessage}
    (h : parseHeadersSwitch isRequest p m c = .stop b r s) : s = (p, m) := by
  unfold parseHeadersSwitch parseHeaderNameStart parseHttpLetter at h
  dsimp only at h
  split at h <;> (try split_ifs at h) <;> cases h <;> rfl

/-- A byte at which the chunk machine stops changes nothing. -/
lemma parseChunksChar_stop {maxContentLength : ℕ} {s s' : ChunkMachine × Bytes} {c : Byte}
    {b : Bool} {r : LoopEnd} (h : parseChunksChar maxContentLength s c = .stop b r s') :
    s' = s := by
  unfold parseChunksChar parseExpected at h
  dsimp only at h
  split at h <;> (try split_ifs at h) <;> cases h <;> rfl

/-- The header machine works on the head of the message. -/
lemma withoutHead_scan_parseHeaders (isRequest saveRaw : Bool) (s : HeaderMachine × HTTPMessage)
    (w : Bytes) :
    (scan (parseHeadersChar isRequest saveRaw) s w).state.2.withoutHead = s.2.withoutHead := by
  refine scan_invariant (P := fun t : HeaderMachine × HTTPMessage =>
    t.2.withoutHead = s.2.withoutHead) ?_ ?_ s w rfl
  · intro t c t' ht h
    rw [← ht]
    exact parseHeadersSwitch_next h
  · intro t c b r t' ht h
    rw [← ht, parseHeadersSwitch_stop h]

/-! ### The framing of a body -/

/-- How the end of the body is found. -/
inductive Framing where
  | chunked
  | empty
  | invalidLength
  | length (n : ℕ)
  | untilEof
deriving DecidableEq

/-- The framing that the header of a message announces. -/
def framing (isRequest : Bool) (m : HTTPMessage) : Framing :=
  if m.isChunked then .chunked
  else if m.isContentLengthImplied then .empty
  else
    match m.headers.find headerContentLength with
    | some e =>
        match lexicalCast sizeMod (trim e.2) with
        | none => .invalidLength
        | some 0 => .empty
        | some (n + 1) => .length (n + 1)
    | none => if isRequest then .empty else .untilEof

namespace Session

/-- The message at the end of its header. -/
def headed (s : Session) : HTTPMessage :=
  updateMessageWithHeaderData s.parser.isRequest s.parser.header
    { s.msg with contentLength := 0 }.updateTransferCodingUsingHeader

/-- The result of a header behind which a body may follow. -/
def bodyFollows (s : Session) : Tribool :=
  if s.parser.parseHeadersOnly then .yes else .indeterminate

/-- The result of the header, and the session before the first byte of the body. -/
def startBody (s : Session) (f : Framing) : Tribool × Session :=
  let p : HTTPParser := { s.parser with bytesContentRemaining := 0, bytesContentRead := 0 }
  let m := s.headed
  let enter (st : MessageParseState) (n : ℕ) (m : HTTPMessage) : Session :=
    ⟨{ p with messageParseState := st, bytesContentRemaining := n }, m.createContentBuffer, s.ec⟩
  match f with
  | .chunked => (s.bodyFollows, enter .parseChunks 0 m)
  | .empty => (.yes, enter .parseEnd 0 m)
  | .invalidLength => (.no, ⟨p, m, .parser .invalidContentLength⟩)
  | .length n =>
      (s.bodyFollows,
        enter .parseContent n { m with contentLength := min n p.maxContentLength })
  | .untilEof => (s.bodyFollows, enter .parseContentNoLength 0 { m with chunkCache := [] })

lemma withoutHead_headed (s : Session) :
    s.headed.withoutHead =
      { s.msg with contentLength := 0 }.updateTransferCodingUsingHeader.withoutHead := by
  simp [headed]

lemma headed_gaps (s : Session) : s.headed.gaps = s.msg.gaps := by
  rw [HTTPMessage.gaps_eq s.withoutHead_headed, HTTPMessage.updateTransferCodingUsingHeader]
  split <;> rfl

lemma headed_contentLength (s : Session) : s.headed.contentLength = 0 := by
  have h := congrArg HTTPMessage.contentLength s.withoutHead_headed
  simp only [HTTPMessage.withoutHead, HTTPMessage.updateTransferCodingUsingHeader] at h
  rw [h]
  split <;> rfl

/-- A declared length is positive and fits a `size_t`. -/
lemma framing_length {isRequest : Bool} {m : HTTPMessage} {n : ℕ}
    (h : framing isRequest m = .length n) : 0 < n ∧ n < sizeMod := by
  rw [framing] at h
  by_cases hc : m.isChunked
  · rw [if_pos hc] at h
    cases h
  by_cases hi : m.isContentLengthImplied
  · rw [if_neg hc, if_pos hi] at h
    cases h
  rw [if_neg hc, if_neg hi] at h
  split at h
  · split at h
    · cases h
    · cases h
    · rename_i k hk
      cases h
      exact ⟨Nat.succ_pos k, lexicalCast_lt hk⟩
  · split_ifs at h

/-- The header decides on the framing and on nothing else. -/
theorem finishHeaderParsing_eq (s : Session) :
    s.finishHeaderParsing = s.startBody (framing s.parser.isRequest s.headed) := by
  have hfold : updateMessageWithHeaderData s.parser.isRequest s.parser.header
      { s.msg with contentLength := 0 }.updateTransferCodingUsingHeader = s.headed := rfl
  have hlen := s.headed_contentLength
  unfold finishHeaderParsing startBody framing bodyFollows
  dsimp only
  rw [hfold]
  generalize s.headed = m at hlen
  have hm : { m with contentLength := 0 } = m := by
    cases m
    subst hlen
    rfl
  by_cases hc : m.isChunked
  · simp only [hc, if_true]
  by_cases hi : m.isContentLengthImplied
  · simp only [hc, hi, if_true, Bool.false_eq_true, if_false]
  cases hf : m.headers.find headerContentLength with
  | none =>
    simp only [hc, hi, HTTPMessage.hasHeader, hf, Option.isSome_none, Bool.false_eq_true, if_false]
    by_cases hr : s.parser.isRequest <;> simp [hr]
  | some e =>
    simp only [if_neg hc, if_neg hi, HTTPMessage.hasHeader, hf, Option.isSome_some, if_true,
      HTTPMessage.updateContentLengthUsingHeader]
    cases lexicalCast sizeMod (trim e.2) with
    | none => rfl
    | some n =>
      cases n with
      | zero =>
        simp only [Option.map_some, hm]
        rw [if_pos hlen]
      | succ n => simp

end Session

/-! ### The machine -/

lemma saveRawHeader_false (p : HeaderMachine) (c : Byte) : saveRawHeader false p c = p := rfl

/-- Saving the text of the header changes nothing else. -/
lemma saveRawHeader_mk (saveRaw : Bool) (st : HeadersParseState) (code : ℕ)
    (message method resource query raw name value : Bytes) (c : Byte) :
    ∃ raw', saveRawHeader saveRaw
        ⟨st, code, message, method, resource, query, raw, name, value⟩ c =
      ⟨st, code, message, method, resource, query, raw', name, value⟩ := by
  cases saveRaw with
  | true => exact ⟨raw ++ [c], rfl⟩
  | false => exact ⟨raw, rfl⟩

namespace Session

/-- The session in the middle of the headers. -/
def atHeaders (s : Session) (t : HeaderMachine × HTTPMessage) : Session :=
  { s with
    parser := { s.parser with messageParseState := .parseHeaders, header := t.1 }, msg := t.2 }

/-- The session in the middle of the chunks. -/
def atChunks (s : Session) (t : ChunkMachine × Bytes) : Session :=
  { s with
    parser := { s.parser with chunk := t.1 }, msg := { s.msg with chunkCache := t.2 } }

/-- The error that is set before `return false`. -/
def setError (s : Session) : Option ErrorValue → Session
  | none => s
  | some ev => { s with ec := .parser ev }

/-- A result is concluded; without one the session goes on. -/
def settle : Tribool × Session → (Tribool × Session) ⊕ Session
  | (.indeterminate, s) => .inr s
  | (rc, s) => .inl (conclude rc s)

/-- A view of the sessions that a call shows at its end as well as at its start. -/
def Concludes (g : Session → Session) : Prop :=
  ∀ rc s, (conclude rc (g s)).map id g = (conclude rc s).map id g

lemma Concludes.congr {g : Session → Session} (hg : Concludes g) {s s' : Session} (rc : Tribool)
    (h : g s = g s') : (conclude rc s).map id g = (conclude rc s').map id g := by
  rw [← hg rc s, h, hg]

lemma Concludes.settle {g : Session → Session} (hg : Concludes g) {x y : Tribool × Session}
    (h : x.map id g = y.map id g) :
    (settle x).map (Prod.map id g) g = (Session.settle y).map (Prod.map id g) g := by
  obtain ⟨rc, s⟩ := x
  obtain ⟨rc', s'⟩ := y
  simp only [Prod.map, Prod.mk.injEq, id_eq] at h
  obtain ⟨rfl, h⟩ := h
  cases rc with
  | indeterminate => exact congrArg Sum.inr h
  | yes => exact congrArg Sum.inl (hg.congr .yes h)
  | no => exact congrArg Sum.inl (hg.congr .no h)

/-- The end of the headers: a result, or the body that follows. -/
def leaveHeaders (s : Session) (r : LoopEnd) (t : HeaderMachine × HTTPMessage) :
    (Tribool × Session) ⊕ Session :=
  match r with
  | .failed ev => .inl (conclude .no ((s.atHeaders t).setError ev))
  | .done => settle (s.atHeaders t).finishHeaderParsing

/-- The end of the chunks is always a result. -/
def leaveChunks (s : Session) (r : LoopEnd) (t : ChunkMachine × Bytes) :
    (Tribool × Session) ⊕ Session :=
  match r with
  | .failed ev => .inl (conclude .no ((s.atChunks t).setError ev))
  | .done =>
      .inl (conclude .yes { s.atChunks t with msg := (s.atChunks t).msg.concatenateChunks })

/-- The session behind one byte of content of a known length. -/
def takeContent (s : Session) (c : Byte) : Session :=
  let p := s.parser
  { s with
    parser := { p with
      bytesContentRemaining := p.bytesContentRemaining - 1
      bytesContentRead := p.bytesContentRead + 1 }
    msg :=
      if p.bytesContentRead < p.maxContentLength then s.msg.writeContent p.bytesContentRead [c]
      else s.msg }

/-- One byte of content of a known length. -/
def contentTurn (s : Session) (c : Byte) : Turn Session Tribool :=
  if s.parser.bytesContentRemaining = 1 then .stop true .yes (conclude .yes (s.takeContent c)).2
  else .next (s.takeContent c)

/-- The cache with one more byte, as long as it is not full. -/
def cacheByte (maxContentLength : ℕ) (cache : Bytes) (c : Byte) : Bytes :=
  if cache.length < maxContentLength then cache ++ [c] else cache

/-- One byte of content of unknown length. -/
def contentNoLengthTurn (s : Session) (c : Byte) : Turn Session Tribool :=
  .next (s.atChunks
    (s.parser.chunk, cacheByte s.parser.maxContentLength s.msg.chunkCache c))

/-- One byte of a chunked body. -/
def chunkTurn (s : Session) (c : Byte) : Turn Session Tribool :=
  phaseTurn (parseChunksChar s.parser.maxContentLength) s.atChunks s.leaveChunks
    (fun s _ => .next s) (s.parser.chunk, s.msg.chunkCache) c

/-- One byte of the body. -/
def bodyTurn (s : Session) (c : Byte) : Turn Session Tribool :=
  match s.parser.messageParseState with
  | .parseChunks => s.chunkTurn c
  | .parseContent => s.contentTurn c
  | .parseContentNoLength => s.contentNoLengthTurn c
  | .parseStart | .parseHeaders | .parseEnd => .stop false .yes (conclude .yes s).2

/-- One byte of the header; the byte behind an incomplete line end is one of the body. -/
def headerTurn (s : Session) (c : Byte) : Turn Session Tribool :=
  phaseTurn (parseHeadersChar s.parser.isRequest s.parser.saveRawHeaders) s.atHeaders
    s.leaveHeaders bodyTurn (s.parser.header, s.msg) c

/-- One byte of the message. -/
def byteTurn (s : Session) (c : Byte) : Turn Session Tribool :=
  match s.parser.messageParseState with
  | .parseStart | .parseHeaders => s.headerTurn c
  | .parseContent | .parseContentNoLength | .parseChunks | .parseEnd => s.bodyTurn c

/-! ### What a turn can do -/

/-- The states in which bytes of the body are expected. -/
def InBody (s : Session) : Prop :=
  s.parser.messageParseState = .parseChunks ∨ s.parser.messageParseState = .parseContent ∨
    s.parser.messageParseState = .parseContentNoLength

/-- The states in which bytes of the header are expected. -/
def InHeaders (s : Session) : Prop :=
  s.parser.messageParseState = .parseStart ∨ s.parser.messageParseState = .parseHeaders

/-- A pass of `parse` over the headers. -/
def headersPass (s : Session) : Tribool × Session :=
  if s.parseHeaders.1 = .yes then s.parseHeaders.2.finishHeaderParsing else s.parseHeaders

lemma parseRound_eq_headersPass {s : Session} (h : s.InHeaders) :
    s.parseRound = (s.atHeaders (s.parser.header, s.msg)).headersPass := by
  rw [parseRound]
  rcases h with h | h
  · simp only [h]
    rfl
  · simp only [h]
    rfl

lemma byteTurn_body {s : Session} (h : s.InBody) (c : Byte) : s.byteTurn c = s.bodyTurn c := by
  rcases h with h | h | h <;> simp only [byteTurn, h]

lemma byteTurn_headers {s : Session} (h : s.InHeaders) (c : Byte) :
    s.byteTurn c = s.headerTurn c := by
  rcases h with h | h <;> simp only [byteTurn, h]

lemma leaveChunks_ne_inr {r : LoopEnd} {s u : Session} {t : ChunkMachine × Bytes} :
    s.leaveChunks r t ≠ .inr u := by
  cases r <;> simp [leaveChunks]

/-- The bytes of the body that are followed by more. -/
lemma bodyTurn_next {s s' : Session} {c : Byte} (h : s.bodyTurn c = .next s') :
    (s.parser.messageParseState = .parseChunks ∧ ∃ t,
      parseChunksChar s.parser.maxContentLength (s.parser.chunk, s.msg.chunkCache) c = .next t ∧
        s' = s.atChunks t) ∨
    (s.parser.messageParseState = .parseContent ∧ s.parser.bytesContentRemaining ≠ 1 ∧
      s' = s.takeContent c) ∨
    (s.parser.messageParseState = .parseContentNoLength ∧
      s' = s.atChunks
        (s.parser.chunk, cacheByte s.parser.maxContentLength s.msg.chunkCache c)) := by
  rw [bodyTurn] at h
  cases hst : s.parser.messageParseState with
  | parseChunks =>
    simp only [hst, chunkTurn, phaseTurn] at h
    refine Or.inl ⟨rfl, ?_⟩
    split at h
    · rename_i t ht
      exact ⟨t, ht, (Turn.next.inj h).symm⟩
    · split at h
      · cases h
      · rename_i hl
        exact absurd hl leaveChunks_ne_inr
  | parseContent =>
    simp only [hst, contentTurn] at h
    split_ifs at h with hr
    exact Or.inr (Or.inl ⟨rfl, hr, (Turn.next.inj h).symm⟩)
  | parseContentNoLength =>
    simp only [hst, contentNoLengthTurn] at h
    exact Or.inr (Or.inr ⟨rfl, (Turn.next.inj h).symm⟩)
  | parseStart => simp [hst] at h
  | parseHeaders => simp [hst] at h
  | parseEnd => simp [hst] at h

/-- The byte ends the header. -/
def EndsHeader (s : Session) (c : Byte) : Prop :=
  ∃ b t, parseHeadersChar s.parser.isRequest s.parser.saveRawHeaders (s.parser.header, s.msg) c =
    .stop b .done t

/-- The bytes of the header that are followed by more. -/
lemma headerTurn_next {s s' : Session} {c : Byte} (h : s.headerTurn c = .next s') :
    (∃ t, parseHeadersChar s.parser.isRequest s.parser.saveRawHeaders (s.parser.header, s.msg) c
        = .next t ∧ s' = s.atHeaders t) ∨
    s.EndsHeader c ∧ ∃ u, (s.atHeaders (saveRawHeader s.parser.saveRawHeaders s.parser.header c,
        s.msg)).finishHeaderParsing = (.indeterminate, u) ∧
      (s' = u ∨ u.bodyTurn c = .next s') := by
  rw [headerTurn, phaseTurn] at h
  split at h
  · rename_i t ht
    exact Or.inl ⟨t, ht, (Turn.next.inj h).symm⟩
  · rename_i b r t ht
    have hsame := parseHeadersSwitch_stop ht
    subst hsame
    cases r with
    | failed ev => simp [leaveHeaders] at h
    | done =>
      simp only [leaveHeaders] at h
      rcases hx : (s.atHeaders (saveRawHeader s.parser.saveRawHeaders s.parser.header c,
        s.msg)).finishHeaderParsing with ⟨rc, u⟩
      cases rc with
      | yes => simp [hx, settle] at h
      | no => simp [hx, settle] at h
      | indeterminate =>
        refine Or.inr ⟨⟨b, _, ht⟩, u, rfl, ?_⟩
        cases b with
        | true => exact Or.inl (by simpa [hx, settle, eq_comm] using h)
        | false => exact Or.inr (by simpa [hx, settle] using h)

/-- The bytes of the body with which the message ends. -/
lemma bodyTurn_yes {s s' : Session} {c : Byte} {b : Bool}
    (hs : s.InBody) (h : s.bodyTurn c = .stop b .yes s') :
    (s.parser.messageParseState = .parseChunks ∧
      s' = (conclude .yes { s with msg := s.msg.concatenateChunks }).2) ∨
    (s.parser.messageParseState = .parseContent ∧ s.parser.bytesContentRemaining = 1 ∧
      s' = (conclude .yes (s.takeContent c)).2) := by
  rw [bodyTurn] at h
  rcases hs with hst | hst | hst
  · refine Or.inl ⟨hst, ?_⟩
    simp only [hst, chunkTurn, phaseTurn] at h
    split at h
    · cases h
    · rename_i b' r t ht
      cases r with
      | failed ev => simp [leaveChunks, conclude] at h
      | done =>
        obtain rfl := parseChunksChar_stop ht
        simp only [leaveChunks, Turn.stop.injEq] at h
        exact h.2.2.symm
  · simp only [hst, contentTurn] at h
    split_ifs at h with hr
    cases h
    exact Or.inr ⟨hst, hr, rfl⟩
  · simp [hst, contentNoLengthTurn] at h

/-- The bytes with which the message ends, when its header is being read. -/
lemma headerTurn_yes {s s' : Session} {c : Byte} {b : Bool}
    (h : s.headerTurn c = .stop b .yes s') :
    s.EndsHeader c ∧ ∃ u, ((s.atHeaders (saveRawHeader s.parser.saveRawHeaders s.parser.header c,
        s.msg)).finishHeaderParsing = (.yes, u) ∧ s' = (conclude .yes u).2) ∨
      ((s.atHeaders (saveRawHeader s.parser.saveRawHeaders s.parser.header c,
        s.msg)).finishHeaderParsing = (.indeterminate, u) ∧ u.bodyTurn c = .stop b .yes s') := by
  rw [headerTurn, phaseTurn] at h
  split at h
  · cases h
  · rename_i b' r t ht
    obtain rfl := parseHeadersSwitch_stop ht
    cases r with
    | failed ev => simp [leaveHeaders, conclude] at h
    | done =>
      simp only [leaveHeaders] at h
      rcases hx : (s.atHeaders (saveRawHeader s.parser.saveRawHeaders s.parser.header c,
        s.msg)).finishHeaderParsing with ⟨rc, u⟩
      rw [hx] at h
      refine ⟨⟨b', _, ht⟩, u, ?_⟩
      cases rc with
      | yes =>
        simp only [settle, Turn.stop.injEq] at h
        exact Or.inl ⟨rfl, h.2.2.symm⟩
      | no => simp [settle, conclude] at h
      | indeterminate =>
        cases b' with
        | true => simp [settle] at h
        | false => exact Or.inr ⟨rfl, by simpa [settle] using h⟩

end Session

end PionCore.Net
