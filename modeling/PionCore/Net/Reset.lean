/-
# A parser after `reset`

`reset` leaves some members of the parser as they are.  `core` erases the members that no
later turn reads before it writes them, which depends on the states of the machines; two
sessions with the same core answer every call alike (`call_core`), and a parser that was
reset has the core of a new one (`reset_run`).
-/
import PionCore.Net.ParserCalls

namespace PionCore.Net

open PionCore.Lib

/-! ### The members that are read again -/

/-- The states in which the name of a header is kept. -/
def HeadersParseState.keepsName : HeadersParseState → Bool
  | .parseHeaderName | .parseSpaceBeforeHeaderValue | .parseHeaderValue => true
  | _ => false

/-- The states in which the value of a header is kept. -/
def HeadersParseState.keepsValue : HeadersParseState → Bool
  | .parseSpaceBeforeHeaderValue | .parseHeaderValue => true
  | _ => false

/-- The states in which the digits of a chunk size are kept. -/
def ChunkedContentParseState.keepsSizeStr : ChunkedContentParseState → Bool
  | .parseChunkSize | .parseExpectingCrAfterChunkSize | .parseExpectingLfAfterChunkSize => true
  | _ => false

/-- The states in which the size of a chunk is kept. -/
def ChunkedContentParseState.keepsSize : ChunkedContentParseState → Bool
  | .parseChunk => true
  | _ => false

/-- The states in which the length of the missing content is kept. -/
def MessageParseState.keepsRemaining : MessageParseState → Bool
  | .parseContent => true
  | _ => false

/-- The header machine without the members that are written before they are read. -/
def HeaderMachine.core (h : HeaderMachine) : HeaderMachine :=
  { h with
    headerName := bif h.headersParseState.keepsName then h.headerName else []
    headerValue := bif h.headersParseState.keepsValue then h.headerValue else [] }

/-- The chunk machine without the members that are written before they are read. -/
def ChunkMachine.core (h : ChunkMachine) : ChunkMachine :=
  { h with
    chunkSizeStr := bif h.chunkedContentParseState.keepsSizeStr then h.chunkSizeStr else []
    sizeOfCurrentChunk :=
      bif h.chunkedContentParseState.keepsSize then h.sizeOfCurrentChunk else 0
    bytesReadInCurrentChunk :=
      bif h.chunkedContentParseState.keepsSize then h.bytesReadInCurrentChunk else 0 }

/-- The parser without the members that are written before they are read. -/
def HTTPParser.core (p : HTTPParser) : HTTPParser :=
  { p with
    header := p.header.core
    chunk := p.chunk.core
    bytesContentRemaining :=
      bif p.messageParseState.keepsRemaining then p.bytesContentRemaining else 0 }

def Session.core (s : Session) : Session := { s with parser := s.parser.core }

lemma HeaderMachine.core_core (h : HeaderMachine) : h.core.core = h.core := by
  obtain ⟨st, code, message, method, resource, query, raw, name, value⟩ := h
  cases st <;> rfl

lemma ChunkMachine.core_core (h : ChunkMachine) : h.core.core = h.core := by
  obtain ⟨st, digits, size, read⟩ := h
  cases st <;> rfl

/-! ### The machines -/

/-- The core of the header machine, beside the message that it fills in. -/
def headerCore (s : HeaderMachine × HTTPMessage) : HeaderMachine × HTTPMessage :=
  (s.1.core, s.2)

/-- The core of the chunk machine, beside the cache that it fills in. -/
def chunkCore (s : ChunkMachine × Bytes) : ChunkMachine × Bytes := (s.1.core, s.2)

lemma parseHeadersSwitch_core (isRequest : Bool) (h : HeaderMachine) (m : HTTPMessage)
    (c : Byte) :
    (parseHeadersSwitch isRequest h.core m c).map headerCore =
      (parseHeadersSwitch isRequest h m c).map headerCore := by
  obtain ⟨st, code, message, method, resource, query, raw, name, value⟩ := h
  cases st <;>
    simp only [parseHeadersSwitch, parseHeaderNameStart, parseHttpLetter, HeaderMachine.core,
      HeadersParseState.keepsName, HeadersParseState.keepsValue, cond_true, cond_false] <;>
    (try split_ifs) <;>
    first
    | rfl
    | simp only [*, if_true, if_false] <;> rfl

lemma parseHeadersChar_respects (isRequest saveRawHeaders : Bool) :
    Respects headerCore (parseHeadersChar isRequest saveRawHeaders) := by
  have hsave : ∀ (h : HeaderMachine) (c : Byte),
      saveRawHeader saveRawHeaders h.core c = (saveRawHeader saveRawHeaders h c).core := by
    intro h c
    unfold saveRawHeader
    split_ifs <;> rfl
  refine Respects.of_view fun s c => ?_
  unfold parseHeadersChar
  rw [headerCore, hsave]
  exact parseHeadersSwitch_core _ _ _ _

lemma parseChunksChar_respects (maxContentLength : ℕ) :
    Respects chunkCore (parseChunksChar maxContentLength) := by
  refine Respects.of_view fun s c => ?_
  obtain ⟨⟨st, digits, size, read⟩, cache⟩ := s
  cases st <;>
    simp only [parseChunksChar, parseExpected, ChunkMachine.core, chunkCore,
      ChunkedContentParseState.keepsSizeStr, ChunkedContentParseState.keepsSize, cond_true,
      cond_false] <;>
    (try split_ifs) <;>
    first
    | rfl
    | simp only [*, if_true, if_false] <;> (try split_ifs) <;> rfl

/-! ### Calls -/

lemma HTTPParser.core_core (p : HTTPParser) : p.core.core = p.core := by
  obtain ⟨isRequest, readBuf, mst, h, ch, remaining, read, last, total, mx, only, raw⟩ := p
  simp only [core, HeaderMachine.core_core, ChunkMachine.core_core]
  cases mst <;> rfl

namespace Session

/-- Two sessions that look the same to every later call. -/
def Alike (s s' : Session) : Prop := s.core = s'.core

/-- Two calls with the same result that leave sessions that look the same. -/
def AlikeResults (x y : Tribool × Session) : Prop := x.1 = y.1 ∧ x.2.Alike y.2

lemma alike_core (s : Session) : s.core.Alike s :=
  congrArg (fun p => Session.mk p s.msg s.ec) s.parser.core_core

lemma AlikeResults.trans {x y z : Tribool × Session} (h : AlikeResults x y)
    (h' : AlikeResults y z) : AlikeResults x z :=
  ⟨h.1.trans h'.1, Eq.trans h.2 h'.2⟩

lemma AlikeResults.symm {x y : Tribool × Session} (h : AlikeResults x y) : AlikeResults y x :=
  ⟨h.1.symm, Eq.symm h.2⟩

/-- A function that does not see the difference between a session and its core gives the
same results on sessions that look the same. -/
lemma alike_of_core {F : Session → Tribool × Session}
    (h : ∀ s, AlikeResults (F s.core) (F s)) {s s' : Session} (hs : s.Alike s') :
    AlikeResults (F s) (F s') := by
  have hcore : s.core = s'.core := hs
  exact (h s).symm.trans (hcore ▸ h s')

/-- What the core shows is the same in sessions that look the same. -/
lemma Alike.get {α : Type} {s s' : Session} (h : s.Alike s') (f : Session → α)
    (hf : ∀ t, f t = f t.core) : f s = f s' := by
  have hcore : s.core = s'.core := h
  rw [hf s, hcore, ← hf s']

/-- A change of what the core shows keeps the likeness. -/
lemma Alike.map {s s' : Session} (h : s.Alike s') {f : Session → Session}
    (hf : ∀ t, (f t).core = f t.core) : (f s).Alike (f s') := by
  have hcore : s.core = s'.core := h
  rw [Alike, hf s, hcore, ← hf s']

lemma startBody_core (s : Session) (f : Framing) :
    AlikeResults (s.core.startBody f) (s.startBody f) := by
  refine ⟨by cases f <;> rfl, ?_⟩
  obtain ⟨⟨isRequest, readBuf, mst, h, ch, remaining, read, last, total, mx, only, raw⟩, m, ec⟩ := s
  cases f <;>
    simp only [Alike, startBody, core, HTTPParser.core, HeaderMachine.core_core,
      ChunkMachine.core_core] <;>
    cases mst <;> rfl

lemma finishHeaderParsing_core (s : Session) :
    AlikeResults s.core.finishHeaderParsing s.finishHeaderParsing := by
  rw [finishHeaderParsing_eq, finishHeaderParsing_eq]
  exact startBody_core s _

lemma conclude_core (rc : Tribool) (s : Session) :
    AlikeResults (conclude rc s.core) (conclude rc s) := by
  obtain ⟨⟨isRequest, readBuf, mst, h, ch, remaining, read, last, total, mx, only, raw⟩, m, ec⟩ := s
  refine ⟨by cases rc <;> rfl, ?_⟩
  cases rc <;>
    simp only [Alike, conclude, core, HTTPParser.core, HeaderMachine.core_core,
      ChunkMachine.core_core] <;>
    cases mst <;> rfl

lemma afterLoop_alike {s s' : Session} (hs : s.Alike s') {p p' : HTTPParser}
    (hp : p.core = p'.core) (m : HTTPMessage) (rest : Bytes) (content : Bool)
    (r : Option LoopEnd) :
    AlikeResults (s.afterLoop p m rest content r) (s'.afterLoop p' m rest content r) := by
  have hcore : ∀ (s : Session) (p : HTTPParser),
      AlikeResults (s.core.afterLoop p.core m rest content r) (s.afterLoop p m rest content r) := by
    intro s p
    obtain ⟨isRequest, readBuf, mst, h, ch, remaining, read, last, total, mx, only, raw⟩ := p
    refine ⟨by rcases r with _ | _ | _ | _ <;> rfl, ?_⟩
    rcases r with _ | _ | _ | _ <;>
      simp only [Alike, afterLoop, core, HTTPParser.core, HeaderMachine.core_core,
        ChunkMachine.core_core] <;>
      cases mst <;> rfl
  have h1 := hcore s p
  have h2 := hcore s' p'
  rw [← hp, ← show s.core = s'.core from hs] at h2
  exact h1.symm.trans h2

lemma parseHeaders_core (s : Session) : AlikeResults s.core.parseHeaders s.parseHeaders := by
  have hstart : headerCore (s.parser.header.core, s.msg) = headerCore (s.parser.header, s.msg) := by
    simp only [headerCore, HeaderMachine.core_core]
  have h := (parseHeadersChar_respects s.parser.isRequest s.parser.saveRawHeaders).scan hstart
    s.parser.readBuf
  simp only [Scanned.map, Scanned.mk.injEq, headerCore, Prod.mk.injEq] at h
  obtain ⟨hresult, hrest, hheader, hmsg⟩ := h
  rw [parseHeaders]
  dsimp only [core, HTTPParser.core]
  rw [hresult, hrest, hmsg]
  refine afterLoop_alike (alike_core s) ?_ _ _ _ _
  simp only [HTTPParser.core, hheader, ChunkMachine.core_core]
  cases s.parser.messageParseState <;> rfl

lemma parseChunks_core (s : Session) : AlikeResults s.core.parseChunks s.parseChunks := by
  have hstart : chunkCore (s.parser.chunk.core, s.msg.chunkCache) =
      chunkCore (s.parser.chunk, s.msg.chunkCache) := by
    simp only [chunkCore, ChunkMachine.core_core]
  have h := (parseChunksChar_respects s.parser.maxContentLength).scan hstart s.parser.readBuf
  simp only [Scanned.map, Scanned.mk.injEq, chunkCore, Prod.mk.injEq] at h
  obtain ⟨hresult, hrest, hchunk, hcache⟩ := h
  rw [parseChunks]
  dsimp only [core, HTTPParser.core]
  rw [hresult, hrest, hcache]
  refine afterLoop_alike (alike_core s) ?_ _ _ _ _
  simp only [HTTPParser.core, hchunk, HeaderMachine.core_core]
  cases s.parser.messageParseState <;> rfl

/-- The length of the missing content is read in the state that keeps it only. -/
lemma consumeContent_core {s : Session} (h : s.parser.messageParseState = .parseContent) :
    AlikeResults s.core.consumeContent s.consumeContent := by
  obtain ⟨⟨isRequest, readBuf, mst, hd, ch, remaining, read, last, total, mx, only, raw⟩, m, ec⟩ := s
  subst h
  unfold consumeContent
  dsimp only [core, HTTPParser.core, MessageParseState.keepsRemaining, cond_true]
  split_ifs <;> refine ⟨rfl, ?_⟩ <;>
    simp only [Alike, core, HTTPParser.core, HeaderMachine.core_core, ChunkMachine.core_core]

lemma parseRound_core (s : Session) : AlikeResults s.core.parseRound s.parseRound := by
  have hsame : s.core.parser.messageParseState = s.parser.messageParseState := rfl
  have hheaders : AlikeResults
      (let x := (s.core.atHeaders (s.core.parser.header, s.core.msg)).parseHeaders
       if x.1 = .yes then x.2.finishHeaderParsing else x)
      (let x := (s.atHeaders (s.parser.header, s.msg)).parseHeaders
       if x.1 = .yes then x.2.finishHeaderParsing else x) := by
    have hstart : (s.core.atHeaders (s.core.parser.header, s.core.msg)).Alike
        (s.atHeaders (s.parser.header, s.msg)) := by
      simp only [Alike, atHeaders, core, HTTPParser.core, HeaderMachine.core_core,
        ChunkMachine.core_core]
      rfl
    obtain ⟨hrc, hs⟩ := alike_of_core parseHeaders_core hstart
    dsimp only
    rw [hrc]
    split_ifs
    · exact alike_of_core finishHeaderParsing_core hs
    · exact ⟨hrc, hs⟩
  unfold parseRound
  rw [hsame]
  cases hst : s.parser.messageParseState with
  | parseStart => exact hheaders
  | parseHeaders => exact hheaders
  | parseChunks =>
    obtain ⟨hrc, hs⟩ := parseChunks_core s
    dsimp only
    rw [hrc]
    split_ifs
    · exact ⟨rfl, hs.map (f := fun t => { t with msg := t.msg.concatenateChunks }) fun _ => rfl⟩
    · exact ⟨rfl, hs⟩
  | parseContent => exact consumeContent_core hst
  | parseContentNoLength =>
    refine ⟨rfl, ?_⟩
    simp only [Alike, consumeContentAsNextChunk, core, HTTPParser.core, HeaderMachine.core_core,
      ChunkMachine.core_core, hst]
    rfl
  | parseEnd => exact ⟨rfl, alike_core s⟩

lemma parseRound_alike {s s' : Session} (h : s.Alike s') :
    AlikeResults s.parseRound s'.parseRound := alike_of_core parseRound_core h

lemma conclude_alike {x y : Tribool × Session} (h : AlikeResults x y) :
    AlikeResults (conclude x.1 x.2) (conclude y.1 y.2) := by
  rw [h.1]
  exact alike_of_core (conclude_core y.1) h.2

lemma parseLoop_alike (n total : ℕ) {s s' : Session} (h : s.Alike s') :
    (parseLoop n total s).1 = (parseLoop n total s').1 ∧
      (parseLoop n total s).2.1 = (parseLoop n total s').2.1 ∧
      (parseLoop n total s).2.2.Alike (parseLoop n total s').2.2 := by
  induction n generalizing total s s' with
  | zero => exact ⟨rfl, rfl, h⟩
  | succ n ih =>
    have hst := h.get (fun t => t.parser.messageParseState) fun _ => rfl
    obtain ⟨hrc, hs⟩ := parseRound_alike h
    have hlast := hs.get (fun t => t.parser.bytesLastRead) fun _ => rfl
    have hbuf := hs.get (fun t => t.parser.readBuf) fun _ => rfl
    simp only [parseLoop, HTTPParser.eof, hrc, hst, hlast, hbuf]
    split_ifs
    · exact ih _ hs
    · exact ih _ hs
    · exact ⟨rfl, rfl, hs⟩
    · exact ⟨rfl, rfl, hs⟩

lemma parse_alike {s s' : Session} (h : s.Alike s') : AlikeResults s.parse s'.parse := by
  have hmark : s.markData.Alike s'.markData := by
    have hm := h.get (fun t => t.msg.hasMissingPackets) fun _ => rfl
    unfold markData
    rw [hm]
    split_ifs
    · exact h.map (f := fun t => { t with msg := { t.msg with hasDataAfterMissing := true } })
        fun _ => rfl
    · exact h
  obtain ⟨hrc, htotal, hs⟩ := parseLoop_alike maxRounds 0 hmark
  obtain ⟨hrc', hs'⟩ := conclude_alike (x := (_, _)) (y := (_, _)) ⟨hrc, hs⟩
  refine ⟨hrc', ?_⟩
  unfold parse
  dsimp only
  rw [htotal]
  exact hs'.map
    (f := fun t => { t with parser := { t.parser with
      bytesLastRead := (parseLoop maxRounds 0 s'.markData).2.1 } }) fun _ => rfl

/-- A chunk that is not being read has no missing data. -/
lemma missingRound_core (s : Session) (len : ℕ) :
    AlikeResults (s.core.missingRound len) (s.missingRound len) := by
  obtain ⟨⟨isRequest, readBuf, mst, h, ch, remaining, read, last, total, mx, only, raw⟩, m, ec⟩ := s
  obtain ⟨cst, digits, size, got⟩ := ch
  cases mst with
  | parseChunks =>
    cases cst <;>
      simp only [missingRound, core, HTTPParser.core, ChunkMachine.core, countMissing,
        ChunkedContentParseState.keepsSize, cond_true, cond_false, true_and, false_and, if_false,
        reduceCtorEq] <;>
      (try split_ifs) <;> refine ⟨rfl, ?_⟩ <;>
      simp only [Alike, core, HTTPParser.core, HeaderMachine.core_core] <;>
      first
      | rfl
      | (simp only [*, if_true, if_false]; rfl)
  | parseContent =>
    by_cases h0 : remaining = 0 <;> by_cases h1 : remaining < len
    all_goals
      simp only [missingRound, core, HTTPParser.core, countMissing,
        MessageParseState.keepsRemaining, cond_true, h0, h1, if_true, if_false]
      refine ⟨rfl, ?_⟩
    all_goals
      simp only [Alike, core, HTTPParser.core, HeaderMachine.core_core, ChunkMachine.core_core]
    rfl
  | _ =>
    refine ⟨rfl, ?_⟩
    simp only [Alike, missingRound, core, HTTPParser.core, countMissing,
      HeaderMachine.core_core, ChunkMachine.core_core]
    rfl

lemma checkPrematureEOF_core (s : Session) :
    s.core.checkPrematureEOF.1 = s.checkPrematureEOF.1 ∧
      s.core.checkPrematureEOF.2.Alike s.checkPrematureEOF.2 := by
  have hsame : s.core.parser.messageParseState = s.parser.messageParseState := rfl
  unfold checkPrematureEOF
  rw [hsame]
  split_ifs
  · exact ⟨rfl, alike_core s⟩
  · exact ⟨rfl, (conclude_core .yes { s with msg := s.msg.concatenateChunks }).2⟩

/-- Every call gives the same result on sessions that look the same, and leaves sessions
that look the same. -/
theorem call_alike {s s' : Session} (h : s.Alike s') (c : Call) :
    AlikeResults (s.call c) (s'.call c) := by
  cases c with
  | setReadBuffer w => exact ⟨rfl, h.map (f := fun t => t.setReadBuffer w) fun _ => rfl⟩
  | parse => exact parse_alike h
  | parseMissingData len =>
    have hmark := h.map
      (f := fun t => { t with msg := { t.msg with hasMissingPackets := true } }) fun _ => rfl
    have hround := alike_of_core (F := fun t => t.missingRound len)
      (fun t => missingRound_core t len) hmark
    exact conclude_alike hround
  | checkPrematureEOF =>
    refine alike_of_core (F := fun t => t.call .checkPrematureEOF) (fun t => ?_) h
    obtain ⟨hb, ht⟩ := checkPrematureEOF_core t
    exact ⟨by simp only [call, hb], ht⟩

/-! ### What the caller sees -/

/-- What the caller sees behind a call: its result, the error code, the unread part of the
buffer, the counters, the raw headers and the message. -/
def seen (x : Tribool × Session) :
    Tribool × ErrorCode × Bytes × ℕ × ℕ × ℕ × Bytes × HTTPMessage :=
  (x.1, x.2.ec, x.2.parser.readBuf, x.2.parser.bytesLastRead, x.2.parser.bytesTotalRead,
    x.2.parser.bytesContentRead, x.2.parser.header.rawHeaders, x.2.msg)

/-- What the caller sees behind each of a sequence of calls. -/
def trace (s : Session) : List Call →
    List (Tribool × ErrorCode × Bytes × ℕ × ℕ × ℕ × Bytes × HTTPMessage)
  | [] => []
  | c :: calls => seen (s.call c) :: (s.call c).2.trace calls

/-- Sessions that look the same cannot be told apart by any sequence of calls. -/
theorem trace_alike {s s' : Session} (h : s.Alike s') (calls : List Call) :
    s.trace calls = s'.trace calls := by
  induction calls generalizing s s' with
  | nil => rfl
  | cons c calls ih =>
    obtain ⟨hrc, hs⟩ := call_alike h c
    have hseen : seen (s.call c) = seen (s'.call c) := by
      have := hs.get (fun t => seen ((s'.call c).1, t)) fun _ => rfl
      rw [← this, ← hrc]
    rw [trace, trace, hseen, ih hs]

end Session

/-- A parser that was reset, with any other message, has the core of a new one, up to the
buffer that it was reading. -/
lemma reset_core (p : HTTPParser) :
    { p.reset with readBuf := [] }.core =
      (HTTPParser.new p.isRequest p.maxContentLength p.parseHeadersOnly p.saveRawHeaders).core := by
  cases hr : p.isRequest <;> simp [HTTPParser.core, HTTPParser.reset, HTTPParser.new, hr,
    initialHeadersState, HeaderMachine.core, ChunkMachine.core, HeadersParseState.keepsName,
    HeadersParseState.keepsValue, ChunkedContentParseState.keepsSizeStr,
    ChunkedContentParseState.keepsSize, MessageParseState.keepsRemaining]

/-- After `reset`, whatever calls it answered before, a parser answers every sequence of
calls that begins with `setReadBuffer` as a new parser with the same configuration does. -/
theorem reset_trace (isRequest : Bool) (maxContentLength : ℕ)
    (parseHeadersOnly saveRawHeaders : Bool) (m₀ m : HTTPMessage) (ec₀ ec : ErrorCode)
    (history : List Call) (w : Bytes) (calls : List Call) :
    let new := HTTPParser.new isRequest maxContentLength parseHeadersOnly saveRawHeaders
    let used := ((⟨new, m₀, ec₀⟩ : Session).after history).parser
    (⟨used.reset, m, ec⟩ : Session).trace (.setReadBuffer w :: calls) =
      (⟨new, m, ec⟩ : Session).trace (.setReadBuffer w :: calls) := by
  intro new used
  have hconfig := Session.config_after ⟨new, m₀, ec₀⟩ history
  simp only [Session.config, Prod.mk.injEq] at hconfig
  obtain ⟨hreq, hmax, honly, hraw⟩ := hconfig
  have hcore := reset_core used
  rw [hreq, hmax, honly, hraw] at hcore
  have halike : (⟨used.reset.setReadBuffer w, m, ec⟩ : Session).Alike ⟨new.setReadBuffer w, m, ec⟩ :=
    congrArg (fun p : HTTPParser => Session.mk { p with readBuf := w } m ec) hcore
  have htrace := Session.trace_alike halike calls
  have hseen : Session.seen (.indeterminate, ⟨used.reset.setReadBuffer w, m, ec⟩) =
      Session.seen (.indeterminate, ⟨new.setReadBuffer w, m, ec⟩) :=
    halike.get (fun t => Session.seen (.indeterminate, t)) fun _ => rfl
  exact congrArg₂ List.cons hseen htrace

end PionCore.Net
