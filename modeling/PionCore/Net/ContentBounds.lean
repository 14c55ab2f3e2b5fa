/-
# The content buffer is never overrun

`Bounded` ties the counters of the parser to the buffer of the message: every write so far
was inside of the block that was allocated, the content read and the content missing add up
to the length that the header declares, and the chunk cache keeps to the maximum.  Every
call of the parser keeps it (`bounded_call`), whatever the calls are.
-/
import PionCore.Net.ParserCalls
import PionCore.Net.MessageContent

namespace PionCore.Net

open PionCore.Lib

namespace HTTPMessage

/-! ### Buffers -/

/-- The length that the header of a message declares. -/
def declaredLength (m : HTTPMessage) : Option ℕ :=
  (m.headers.find headerContentLength).bind fun e => lexicalCast sizeMod (trim e.2)

lemma declaredLength_lt {m : HTTPMessage} {n : ℕ} (h : m.declaredLength = some n) :
    n < sizeMod := by
  obtain ⟨e, -, he⟩ := Option.bind_eq_some_iff.1 h
  exact lexicalCast_lt he

lemma declaredLength_of_framing {isRequest : Bool} {m : HTTPMessage} {n : ℕ}
    (h : framing isRequest m = .length n) : m.declaredLength = some n := by
  rw [framing] at h
  by_cases hc : m.isChunked
  · simp [hc] at h
  by_cases hi : m.isContentLengthImplied
  · simp [hc, hi] at h
  rw [if_neg hc, if_neg hi] at h
  cases hf : m.headers.find headerContentLength with
  | none =>
    rw [hf] at h
    cases isRequest <;> simp at h
  | some e =>
    rw [hf] at h
    cases hl : lexicalCast sizeMod (trim e.2) with
    | none => simp [hl] at h
    | some k =>
      cases k with
      | zero => simp [hl] at h
      | succ k =>
        simp only [hl, Framing.length.injEq] at h
        simp only [declaredLength, hf, Option.bind_some, hl, h]

/-- The ghost flag and the chunk cache. -/
def store (m : HTTPMessage) : Bool × Bytes := (m.wildWrite, m.chunkCache)

lemma store_eq {m m' : HTTPMessage} (h : m.withoutHead = m'.withoutHead) : m.store = m'.store :=
  (congrArg store h : m.withoutHead.store = m'.withoutHead.store)

end HTTPMessage

namespace Session

/-! ### The invariant -/

/-- The content counters and the content buffer agree with the declared length. -/
def ContentBounded (s : Session) : Prop :=
  ∃ n cells, s.msg.declaredLength = some n ∧
    s.parser.bytesContentRead + s.parser.bytesContentRemaining = n ∧
    s.msg.contentBuf = some cells ∧ cells.length = min n s.parser.maxContentLength + 1

/-- The counters of the parser agree with the buffers of the message. -/
structure Bounded (s : Session) : Prop where
  /-- no write has missed the block that was allocated for it -/
  inside : s.msg.wildWrite = false
  cache : s.msg.chunkCache.length ≤ s.parser.maxContentLength
  content : s.parser.messageParseState = .parseContent → s.ContentBounded

/-- Outside of the content, the bounds speak about the flag and the chunk cache only. -/
lemma Bounded.transfer {s s' : Session} (hs : s.Bounded) (hstore : s'.msg.store = s.msg.store)
    (hmax : s'.parser.maxContentLength = s.parser.maxContentLength)
    (hst : s'.parser.messageParseState ≠ .parseContent) : s'.Bounded where
  inside := (Prod.mk.inj hstore).1.trans hs.inside
  cache := by
    rw [(Prod.mk.inj hstore).2, hmax]
    exact hs.cache
  content := fun h => absurd h hst

lemma bounded_parseHeaders {s : Session} (hs : s.Bounded)
    (hst : s.parser.messageParseState ≠ .parseContent) : s.parseHeaders.2.Bounded := by
  have hstore := HTTPMessage.store_eq (withoutHead_scan_parseHeaders s.parser.isRequest
    s.parser.saveRawHeaders (s.parser.header, s.msg) s.parser.readBuf)
  unfold parseHeaders
  dsimp only
  generalize scan (parseHeadersChar s.parser.isRequest s.parser.saveRawHeaders)
    (s.parser.header, s.msg) s.parser.readBuf = x at hstore
  obtain ⟨r, rest, t⟩ := x
  rcases r with _ | _ | _ | _ <;> exact hs.transfer hstore rfl hst

lemma bounded_finishHeaderParsing {s : Session} (hs : s.Bounded)
    (hst : s.parser.messageParseState ≠ .parseContent)
    (hmax : s.parser.maxContentLength + 1 < sizeMod) : s.finishHeaderParsing.2.Bounded := by
  have hstore : s.headed.store = s.msg.store := by
    rw [HTTPMessage.store_eq s.withoutHead_headed, HTTPMessage.updateTransferCodingUsingHeader]
    split <;> rfl
  have hlen := s.headed_contentLength
  have hempty : s.headed.contentLength + 1 < sizeMod := by
    rw [hlen]
    decide
  rw [finishHeaderParsing_eq]
  cases hf : framing s.parser.isRequest s.headed with
  | chunked =>
    simp only [startBody, HTTPMessage.createContentBuffer_eq hempty]
    exact hs.transfer hstore rfl (by simp)
  | empty =>
    simp only [startBody, HTTPMessage.createContentBuffer_eq hempty]
    exact hs.transfer hstore rfl (by simp)
  | invalidLength => exact hs.transfer hstore rfl hst
  | length n =>
    have hfit : ({ s.headed with contentLength := min n s.parser.maxContentLength } :
        HTTPMessage).contentLength + 1 < sizeMod := by
      change min n s.parser.maxContentLength + 1 < sizeMod
      omega
    simp only [startBody, HTTPMessage.createContentBuffer_eq hfit]
    obtain ⟨hinside, hcache⟩ := Prod.mk.inj hstore
    refine ⟨hinside.trans hs.inside, ?_, fun _ => ?_⟩
    · exact hcache ▸ hs.cache
    · refine ⟨n, _, HTTPMessage.declaredLength_of_framing hf, by simp, rfl, by simp⟩
  | untilEof =>
    have hfit : ({ s.headed with chunkCache := [] } : HTTPMessage).contentLength + 1 < sizeMod :=
      hempty
    simp only [startBody, HTTPMessage.createContentBuffer_eq hfit]
    exact ⟨(Prod.mk.inj hstore).1.trans hs.inside, Nat.zero_le _, by simp⟩

/-- The chunk machine adds to the cache only below the maximum. -/
lemma scan_parseChunks_length {maxContentLength : ℕ} {s : ChunkMachine × Bytes}
    (hs : s.2.length ≤ maxContentLength) (w : Bytes) :
    (scan (parseChunksChar maxContentLength) s w).state.2.length ≤ maxContentLength := by
  refine scan_invariant (P := fun t => t.2.length ≤ maxContentLength) ?_ ?_ s w hs
  · intro t c t' ht h
    unfold parseChunksChar parseExpected at h
    dsimp only at h
    split at h <;> (try split_ifs at h) <;> cases h <;> try exact ht
    -- a byte of chunk data for which there is room
    all_goals
      rw [List.length_append, List.length_singleton]
      omega
  · intro t c b r t' ht h
    rwa [parseChunksChar_stop h]

lemma bounded_parseChunks {s : Session} (hs : s.Bounded)
    (hst : s.parser.messageParseState ≠ .parseContent) : s.parseChunks.2.Bounded := by
  have hcache := scan_parseChunks_length (s := (s.parser.chunk, s.msg.chunkCache)) hs.cache
    s.parser.readBuf
  rw [parseChunks]
  dsimp only
  generalize scan (parseChunksChar s.parser.maxContentLength)
    (s.parser.chunk, s.msg.chunkCache) s.parser.readBuf = x at hcache
  obtain ⟨r, rest, t⟩ := x
  rcases r with _ | _ | _ | _ <;> exact ⟨hs.inside, hcache, fun h => absurd h hst⟩

lemma bounded_concatenateChunks {s : Session} (hs : s.Bounded)
    (hst : s.parser.messageParseState ≠ .parseContent)
    (hmax : s.parser.maxContentLength + 1 < sizeMod) :
    ({ s with msg := s.msg.concatenateChunks } : Session).Bounded := by
  have hcache := hs.cache
  rw [HTTPMessage.concatenateChunks_eq (by omega)]
  exact hs.transfer rfl rfl hst

/-- A piece of content that is not longer than the missing one. -/
lemma bounded_write {s : Session} (hs : s.Bounded)
    (hst : s.parser.messageParseState = .parseContent) {len : ℕ} {w : Bytes} {p : HTTPParser}
    (hlen : len ≤ s.parser.bytesContentRemaining)
    (hw : w = [] ∨ s.parser.bytesContentRead + w.length ≤ s.parser.maxContentLength ∧
      w.length ≤ len)
    (hread : p.bytesContentRead = s.parser.bytesContentRead + len)
    (hremaining : p.bytesContentRemaining = s.parser.bytesContentRemaining - len)
    (hmax : p.maxContentLength = s.parser.maxContentLength) :
    (⟨p, s.msg.writeContent s.parser.bytesContentRead w, s.ec⟩ : Session).Bounded := by
  obtain ⟨n, cells, hn, hsum, hbuf, hcells⟩ := hs.content hst
  refine ⟨?_, ?_, fun _ => ?_⟩
  · rw [HTTPMessage.writeContent_wildWrite hbuf]
    · exact hs.inside
    · refine hw.imp id fun h => ?_
      rw [hcells]
      omega
  · rw [hmax]
    exact hs.cache
  · refine ⟨n, _, hn, ?_, HTTPMessage.writeContent_contentBuf hbuf, ?_⟩
    · change p.bytesContentRead + p.bytesContentRemaining = n
      omega
    · rw [Memory.length_write, hcells, hmax]

lemma bounded_consumeContent {s : Session} (hs : s.Bounded)
    (hst : s.parser.messageParseState = .parseContent) : s.consumeContent.2.Bounded := by
  obtain ⟨n, cells, hn, hsum, -, -⟩ := hs.content hst
  have hlt := HTTPMessage.declaredLength_lt hn
  rw [consumeContent]
  dsimp only
  split
  · exact hs
  · have hmod : (s.parser.bytesContentRead +
        min s.parser.readBuf.length s.parser.bytesContentRemaining) % sizeMod =
        s.parser.bytesContentRead + min s.parser.readBuf.length s.parser.bytesContentRemaining :=
      Nat.mod_eq_of_lt (by omega)
    refine bounded_write hs hst (Nat.min_le_right s.parser.readBuf.length _) ?_ hmod rfl rfl
    rw [hmod]
    split_ifs with h1 h2
    · exact Or.inr ⟨by rw [List.length_take]; omega, by rw [List.length_take]; omega⟩
    · exact Or.inr ⟨by rw [List.length_take]; omega, by rw [List.length_take]; omega⟩
    · exact Or.inl List.take_zero

lemma bounded_conclude {s : Session} (hs : s.Bounded) (rc : Tribool) :
    (conclude rc s).2.Bounded := by
  cases rc with
  | yes =>
    have hpost := HTTPMessage.withoutHead_parsePostContent s.parser.isRequest
      (computeMsgStatus { s.msg with isValid := true } true)
    exact hs.transfer ((HTTPMessage.store_eq hpost).trans rfl) rfl (by simp [conclude])
  | no => exact ⟨hs.inside, hs.cache, hs.content⟩
  | indeterminate => exact hs

lemma config_max {s s' : Session} (h : s'.config = s.config) :
    s'.parser.maxContentLength = s.parser.maxContentLength :=
  (Prod.mk.inj (Prod.mk.inj h).2).1

lemma afterLoop_messageParseState (s : Session) (p : HTTPParser) (m : HTTPMessage) (rest : Bytes)
    (content : Bool) (r : Option LoopEnd) :
    (s.afterLoop p m rest content r).2.parser.messageParseState = p.messageParseState := by
  rcases r with _ | _ | _ | _ <;> rfl

lemma bounded_parseRound {s : Session} (hs : s.Bounded)
    (hmax : s.parser.maxContentLength + 1 < sizeMod) : s.parseRound.2.Bounded := by
  have hheaders : ∀ t : Session, t.Bounded → t.parser.messageParseState = .parseHeaders →
      t.parser.maxContentLength = s.parser.maxContentLength →
      (if t.parseHeaders.1 = .yes then t.parseHeaders.2.finishHeaderParsing
        else t.parseHeaders).2.Bounded := by
    intro t ht hst htmax
    have hne : t.parser.messageParseState ≠ .parseContent := by simp [hst]
    have hbounded := bounded_parseHeaders ht hne
    have hst' : t.parseHeaders.2.parser.messageParseState = t.parser.messageParseState :=
      afterLoop_messageParseState _ _ _ _ _ _
    have hconfig : t.parseHeaders.2.config = t.config := config_afterLoop _ _ _ t.msg _ _ _
    split
    · refine bounded_finishHeaderParsing hbounded (by rw [hst']; exact hne) ?_
      rw [config_max hconfig, htmax]
      exact hmax
    · exact hbounded
  have hstart : ∀ h, (s.atHeaders (h, s.msg)).Bounded := fun h =>
    hs.transfer rfl rfl (by simp [atHeaders])
  rw [parseRound]
  cases hst : s.parser.messageParseState with
  | parseStart => exact hheaders _ (hstart _) rfl rfl
  | parseHeaders => exact hheaders _ (hstart _) rfl rfl
  | parseChunks =>
    have hne : s.parser.messageParseState ≠ .parseContent := by simp [hst]
    have hbounded := bounded_parseChunks hs hne
    have hst' : s.parseChunks.2.parser.messageParseState = s.parser.messageParseState :=
      afterLoop_messageParseState _ _ _ _ _ _
    have hconfig : s.parseChunks.2.config = s.config := config_afterLoop _ _ _ s.msg _ _ _
    dsimp only
    split
    · refine bounded_concatenateChunks hbounded (by rw [hst']; exact hne) ?_
      rw [config_max hconfig]
      exact hmax
    · exact hbounded
  | parseContent => exact bounded_consumeContent hs hst
  | parseContentNoLength =>
    have hcache := hs.cache
    refine ⟨hs.inside, ?_, by simp [consumeContentAsNextChunk, hst]⟩
    simp only [consumeContentAsNextChunk, List.length_append, List.length_take]
    omega
  | parseEnd => exact hs

lemma bounded_parseLoop (n total : ℕ) {s : Session} (hs : s.Bounded)
    (hmax : s.parser.maxContentLength + 1 < sizeMod) : (parseLoop n total s).2.2.Bounded := by
  induction n generalizing total s with
  | zero => exact hs
  | succ n ih =>
    have hround := bounded_parseRound hs hmax
    simp only [parseLoop]
    by_cases h : s.parseRound.1 = .indeterminate ∧ (! s.parseRound.2.parser.eof) = true
    · rw [if_pos h]
      refine ih _ hround ?_
      rw [config_max (config_parseRound s)]
      exact hmax
    · rw [if_neg h]
      exact hround

lemma length_cacheMissing {cache : Bytes} {max : ℕ} (h : cache.length ≤ max) (len : ℕ) :
    (cacheMissing cache len max).length ≤ max := by
  rw [cacheMissing, List.length_append, List.length_replicate]
  omega

lemma bounded_missingRound {s : Session} (hs : s.Bounded) (len : ℕ) :
    (s.missingRound len).2.Bounded := by
  have hcache := length_cacheMissing hs.cache len
  rw [missingRound]
  dsimp only
  cases hst : s.parser.messageParseState with
  | parseStart => exact hs.transfer rfl rfl (by simp [hst])
  | parseHeaders => exact hs.transfer rfl rfl (by simp [hst])
  | parseChunks =>
    dsimp only
    split
    · exact ⟨hs.inside, hcache, by simp [countMissing, hst]⟩
    · exact hs.transfer rfl rfl (by simp [hst])
  | parseContent =>
    obtain ⟨n, cells, hn, hsum, -, -⟩ := hs.content hst
    have hlt := HTTPMessage.declaredLength_lt hn
    dsimp only
    split
    · exact hs
    · split
      · exact ⟨hs.inside, hs.cache, hs.content⟩
      · have hmod : (s.parser.bytesContentRead + len) % sizeMod =
            s.parser.bytesContentRead + len := Nat.mod_eq_of_lt (by omega)
        by_cases hfit : (s.parser.bytesContentRead + len) % sizeMod ≤ s.parser.maxContentLength
        · rw [if_pos hfit]
          rw [hmod] at hfit
          refine bounded_write hs hst (by omega) (Or.inr ⟨?_, ?_⟩) hmod rfl rfl
          · rwa [List.length_replicate]
          · rw [List.length_replicate]
        · rw [if_neg hfit, ← HTTPMessage.writeContent_nil s.msg s.parser.bytesContentRead]
          exact bounded_write hs hst (by omega) (Or.inl rfl) hmod rfl rfl
  | parseContentNoLength => exact ⟨hs.inside, hcache, by simp [countMissing, hst]⟩
  | parseEnd => exact hs

/-- Every call keeps the bounds. -/
theorem bounded_call {s : Session} (hs : s.Bounded)
    (hmax : s.parser.maxContentLength + 1 < sizeMod) (c : Call) : (s.call c).2.Bounded := by
  cases c with
  | setReadBuffer w => exact ⟨hs.inside, hs.cache, hs.content⟩
  | parse =>
    have hmark : s.markData.Bounded := by
      rw [markData]
      split
      · exact ⟨hs.inside, hs.cache, hs.content⟩
      · exact hs
    have hloop := bounded_conclude (bounded_parseLoop maxRounds 0 hmark
      (by rw [config_max (config_markData s)]; exact hmax)) (parseLoop maxRounds 0 s.markData).1
    exact ⟨hloop.inside, hloop.cache, hloop.content⟩
  | parseMissingData len =>
    have hmark : ({ s with msg := { s.msg with hasMissingPackets := true } } : Session).Bounded :=
      ⟨hs.inside, hs.cache, hs.content⟩
    exact bounded_conclude (bounded_missingRound hmark len) _
  | checkPrematureEOF =>
    simp only [call, checkPrematureEOF]
    split
    · exact hs
    · rename_i hst
      have hst' : s.parser.messageParseState ≠ .parseContent := by
        intro h
        simp [h] at hst
      exact bounded_conclude (bounded_concatenateChunks hs hst' hmax) .yes

end Session

/-- Whatever calls a new parser answers, its counters and the buffers of the message stay
within their bounds. -/
theorem content_bounds (isRequest : Bool) (maxContentLength : ℕ)
    (parseHeadersOnly saveRawHeaders : Bool) (m : HTTPMessage) (ec : ErrorCode)
    (hmax : maxContentLength + 1 < sizeMod) (hinside : m.wildWrite = false)
    (hcache : m.chunkCache = []) (calls : List Call) :
    ((⟨HTTPParser.new isRequest maxContentLength parseHeadersOnly saveRawHeaders, m, ec⟩ :
      Session).after calls).Bounded := by
  have hnew : (⟨HTTPParser.new isRequest maxContentLength parseHeadersOnly saveRawHeaders, m,
      ec⟩ : Session).Bounded := by
    refine ⟨hinside, ?_, by simp [HTTPParser.new]⟩
    simp [hcache]
  refine (Session.after_invariant (P := fun s => s.Bounded ∧
    s.parser.maxContentLength = maxContentLength) (fun s c hs => ⟨?_, ?_⟩) ⟨hnew, rfl⟩ calls).1
  · exact Session.bounded_call hs.1 (by rw [hs.2]; exact hmax) c
  · exact (Session.config_max (Session.config_call s c)).trans hs.2

/-- Content beyond the maximum, a part of which is lost. -/
theorem content_bounds_of_lost_data :
    ((⟨HTTPParser.new true 3 false false, .newRequest [], .success⟩ : Session).after
      [.setReadBuffer (ascii "PUT / HTTP/1.1\r\nContent-Length: 8\r\n\r\nab"), .parse,
        .parseMissingData 4, .setReadBuffer (ascii "cd"), .parse]).Bounded :=
  content_bounds true 3 false false (.newRequest []) .success (by decide) rfl rfl _

end PionCore.Net
