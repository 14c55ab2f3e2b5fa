/-
# Buffers leave no trace

A call of `parse` does with a buffer what the machine on single bytes does with the bytes
of the buffer, up to the read pointer and the counters that only report progress
(`parse_refines`).  It follows that the outcome of reading a byte string does not depend on
the buffers it arrives in (`parse_fragmentation`).
-/
import PionCore.Net.ByteMachine
import PionCore.Net.MessageContent

namespace PionCore.Net

open PionCore.Lib

namespace Session

/-! ### What is forgotten -/

/-- A session without the read buffer and the counters that only report progress. -/
def forget (s : Session) : Session :=
  { s with
    parser := { s.parser with
      readBuf := []
      bytesLastRead := 0
      bytesTotalRead := 0
      bytesContentRead :=
        if s.parser.messageParseState = .parseContent then s.parser.bytesContentRead else 0 } }

lemma forget_forget (s : Session) : s.forget.forget = s.forget := by
  simp only [forget]
  split_ifs <;> rfl

lemma startBody_forget (s : Session) (f : Framing) :
    (s.forget.startBody f).map id forget = (s.startBody f).map id forget := by
  cases f with
  | invalidLength =>
    simp only [startBody, Prod.map, forget, id_eq]
    split_ifs <;> rfl
  | _ => rfl

lemma concludes_forget : Concludes forget := by
  intro rc s
  cases rc with
  | yes => rfl
  | no =>
    simp only [conclude, Prod.map, Prod.mk.injEq, true_and]
    exact forget_forget { s with msg := computeMsgStatus s.msg false }
  | indeterminate =>
    simp only [conclude, Prod.map, Prod.mk.injEq, true_and]
    exact forget_forget s

/-- The end of the header does not depend on what is forgotten. -/
lemma finishHeaderParsing_congr {s s' : Session} (h : s.forget = s'.forget) :
    s.finishHeaderParsing.map id forget = s'.finishHeaderParsing.map id forget := by
  have hm : s.headed = s'.headed :=
    (congrArg headed h : s.forget.headed = s'.forget.headed)
  have hr : s.parser.isRequest = s'.parser.isRequest :=
    (congrArg (fun s => s.parser.isRequest) h :
      s.forget.parser.isRequest = s'.forget.parser.isRequest)
  rw [finishHeaderParsing_eq, finishHeaderParsing_eq, hm, hr, ← startBody_forget s, h,
    startBody_forget]

lemma leaveHeaders_forget (r : LoopEnd) (s : Session) (t : HeaderMachine × HTTPMessage) :
    (s.forget.leaveHeaders r t).map (Prod.map id forget) forget =
      (s.leaveHeaders r t).map (Prod.map id forget) forget := by
  cases r with
  | failed ev => exact congrArg Sum.inl (concludes_forget.congr .no (by cases ev <;> rfl))
  | done =>
    exact concludes_forget.settle (finishHeaderParsing_congr rfl)

lemma leaveChunks_forget (r : LoopEnd) (s : Session) (t : ChunkMachine × Bytes) :
    (s.forget.leaveChunks r t).map (Prod.map id forget) forget =
      (s.leaveChunks r t).map (Prod.map id forget) forget := by
  cases r with
  | failed ev =>
    have h : ((s.forget.atChunks t).setError ev).forget = ((s.atChunks t).setError ev).forget := by
      cases ev with
      | none => exact forget_forget (s.atChunks t)
      | some ev => exact forget_forget ((s.atChunks t).setError (some ev))
    exact congrArg Sum.inl (concludes_forget.congr .no h)
  | done => rfl

lemma chunkTurn_forget (s : Session) (c : Byte) :
    (s.forget.chunkTurn c).map forget = (s.chunkTurn c).map forget := by
  refine phaseTurn_map (fun t => ?_) (fun r t => leaveChunks_forget r s t) ?_ _ c
  · exact forget_forget (s.atChunks t)
  · exact fun t t' _ ht => congrArg Turn.next ht

lemma takeContent_forget {s : Session} (h : s.parser.messageParseState = .parseContent)
    (c : Byte) : (s.forget.takeContent c).forget = (s.takeContent c).forget := by
  simp only [takeContent, forget, h, if_true]

lemma contentTurn_forget {s : Session} (h : s.parser.messageParseState = .parseContent)
    (c : Byte) : (s.forget.contentTurn c).map forget = (s.contentTurn c).map forget := by
  have hs := takeContent_forget h c
  have hsame : s.forget.parser.bytesContentRemaining = s.parser.bytesContentRemaining := rfl
  unfold contentTurn
  rw [hsame]
  split_ifs
  · have hc := congrArg Prod.snd (concludes_forget.congr .yes hs)
    exact congrArg (Turn.stop true Tribool.yes) hc
  · exact congrArg Turn.next hs

lemma bodyTurn_forget (s : Session) (c : Byte) :
    (s.forget.bodyTurn c).map forget = (s.bodyTurn c).map forget := by
  have hsame : s.forget.parser.messageParseState = s.parser.messageParseState := rfl
  unfold bodyTurn
  rw [hsame]
  cases hst : s.parser.messageParseState with
  | parseChunks => exact chunkTurn_forget s c
  | parseContent => exact contentTurn_forget hst c
  | parseContentNoLength =>
    exact congrArg Turn.next (forget_forget
      (s.atChunks (s.parser.chunk, cacheByte s.parser.maxContentLength s.msg.chunkCache c)))
  | _ => rfl

lemma bodyTurn_respects : Respects forget bodyTurn := Respects.of_view bodyTurn_forget

lemma headerTurn_forget (s : Session) (c : Byte) :
    (s.forget.headerTurn c).map forget = (s.headerTurn c).map forget := by
  refine phaseTurn_map (fun t => ?_) (fun r t => leaveHeaders_forget r s t) bodyTurn_respects _ c
  rfl

lemma byteTurn_forget (s : Session) (c : Byte) :
    (s.forget.byteTurn c).map forget = (s.byteTurn c).map forget := by
  have hsame : s.forget.parser.messageParseState = s.parser.messageParseState := rfl
  unfold byteTurn
  rw [hsame]
  cases s.parser.messageParseState with
  | parseStart => exact headerTurn_forget s c
  | parseHeaders => exact headerTurn_forget s c
  | _ => exact bodyTurn_forget s c

lemma byteTurn_respects : Respects forget byteTurn := Respects.of_view byteTurn_forget

/-! ### One pass of `parse` over the body -/

/-- The result that ends a reader, if there is one. -/
def known : Tribool → Option Tribool
  | .indeterminate => none
  | rc => some rc

/-- The outcome of a call: its result, the unread bytes and the session. -/
def outcome (x : Tribool × Session) : Scanned Byte Session Tribool :=
  ⟨known x.1, x.2.parser.readBuf, x.2⟩

/-- Between two calls that came to no result, the machine is not at its end, content is
still missing, and the length of the content fits a `size_t`. -/
def Ready (s : Session) : Prop :=
  s.parser.messageParseState ≠ .parseEnd ∧
    (s.parser.messageParseState = .parseContent →
      0 < s.parser.bytesContentRemaining ∧
        s.parser.bytesContentRead + s.parser.bytesContentRemaining < sizeMod)

/-- The session behind a piece of content: the part below the maximum is stored. -/
def advanceContent (s : Session) (v : Bytes) : Session :=
  { s with
    parser := { s.parser with
      bytesContentRemaining := s.parser.bytesContentRemaining - v.length
      bytesContentRead := s.parser.bytesContentRead + v.length }
    msg := s.msg.writeContent s.parser.bytesContentRead
      (v.take (s.parser.maxContentLength - s.parser.bytesContentRead)) }

lemma takeContent_eq (s : Session) (c : Byte) : s.takeContent c = s.advanceContent [c] := by
  rw [takeContent, advanceContent]
  by_cases h : s.parser.bytesContentRead < s.parser.maxContentLength
  · obtain ⟨n, hn⟩ : ∃ n, s.parser.maxContentLength - s.parser.bytesContentRead = n + 1 :=
      ⟨s.parser.maxContentLength - s.parser.bytesContentRead - 1, by omega⟩
    simp [h, hn]
  · have hn : s.parser.maxContentLength - s.parser.bytesContentRead = 0 := by omega
    simp [h, hn]

lemma advanceContent_nil (s : Session) : s.advanceContent [] = s := by
  simp [advanceContent]

lemma advanceContent_append (s : Session) (v w : Bytes) :
    (s.advanceContent v).advanceContent w = s.advanceContent (v ++ w) := by
  simp only [advanceContent, Session.mk.injEq, and_true]
  refine ⟨by simp [Nat.sub_sub, Nat.add_assoc], ?_⟩
  rw [List.take_append, HTTPMessage.writeContent_append, Nat.sub_sub]
  by_cases h : v.length ≤ s.parser.maxContentLength - s.parser.bytesContentRead
  · rw [List.take_of_length_le h]
  · have h0 : s.parser.maxContentLength - (s.parser.bytesContentRead + v.length) = 0 := by omega
    simp [h0]

/-- Content that is not complete is taken in. -/
lemma scan_content_open {s : Session} {w : Bytes}
    (hst : s.parser.messageParseState = .parseContent)
    (hw : w.length < s.parser.bytesContentRemaining) :
    scan bodyTurn s w = ⟨none, [], s.advanceContent w⟩ := by
  induction w generalizing s with
  | nil => simp [advanceContent_nil]
  | cons c w ih =>
    rw [List.length_cons] at hw
    have hturn : s.bodyTurn c = .next (s.advanceContent [c]) := by
      simp only [bodyTurn, hst, contentTurn, takeContent_eq]
      rw [if_neg (by omega)]
    have hlen : w.length < (s.advanceContent [c]).parser.bytesContentRemaining := by
      change w.length < s.parser.bytesContentRemaining - 1
      omega
    have hst' : (s.advanceContent [c]).parser.messageParseState = .parseContent := hst
    rw [scan_next hturn, ih hst' hlen, advanceContent_append, List.singleton_append]

/-- The byte that completes the content is the last one that is consumed. -/
lemma scan_content_done {s : Session} {v u : Bytes}
    (hst : s.parser.messageParseState = .parseContent)
    (hv : v.length = s.parser.bytesContentRemaining) (hne : v ≠ []) :
    scan bodyTurn s (v ++ u) = ⟨some .yes, u, (conclude .yes (s.advanceContent v)).2⟩ := by
  obtain ⟨v', c, rfl⟩ : ∃ v' c, v = v' ++ [c] := ⟨_, _, (List.dropLast_append_getLast hne).symm⟩
  rw [List.length_append, List.length_singleton] at hv
  have hopen := scan_content_open (w := v') hst (by omega)
  have hturn : (s.advanceContent v').bodyTurn c =
      .stop true .yes (conclude .yes (s.advanceContent (v' ++ [c]))).2 := by
    have hr : (s.advanceContent v').parser.bytesContentRemaining = 1 := by
      change s.parser.bytesContentRemaining - v'.length = 1
      omega
    have hst' : (s.advanceContent v').parser.messageParseState = .parseContent := hst
    simp only [bodyTurn, hst', contentTurn, hr, if_true, takeContent_eq, advanceContent_append]
  rw [List.append_assoc, scan_append, hopen, Scanned.resume_none rfl, List.singleton_append,
    scan_stop hturn]

/-- Caching a byte and then a word is caching them together. -/
lemma cacheByte_append (maxContentLength : ℕ) (cache : Bytes) (c : Byte) (w : Bytes) :
    cacheByte maxContentLength cache c ++
        w.take (maxContentLength - (cacheByte maxContentLength cache c).length) =
      cache ++ (c :: w).take (maxContentLength - cache.length) := by
  rw [cacheByte]
  split_ifs with h
  · obtain ⟨n, hn⟩ : ∃ n, maxContentLength - cache.length = n + 1 :=
      ⟨maxContentLength - cache.length - 1, by omega⟩
    have hn' : maxContentLength - (cache ++ [c]).length = n := by
      rw [List.length_append, List.length_singleton]
      omega
    rw [hn, hn', List.take_succ_cons, List.append_assoc, List.singleton_append]
  · have h0 : maxContentLength - cache.length = 0 := by omega
    rw [h0, List.take_zero, List.take_zero]

/-- Content of unknown length is taken in until the cache is full. -/
lemma scan_contentNoLength {s : Session} {w : Bytes}
    (hst : s.parser.messageParseState = .parseContentNoLength) :
    scan bodyTurn s w =
      ⟨none, [], s.atChunks (s.parser.chunk, s.msg.chunkCache ++
        w.take (s.parser.maxContentLength - s.msg.chunkCache.length))⟩ := by
  induction w generalizing s with
  | nil => simp [atChunks]
  | cons c w ih =>
    have hturn : s.bodyTurn c = .next (s.atChunks
        (s.parser.chunk, cacheByte s.parser.maxContentLength s.msg.chunkCache c)) := by
      simp only [bodyTurn, hst, contentNoLengthTurn]
    have hst' : (s.atChunks (s.parser.chunk, cacheByte s.parser.maxContentLength
        s.msg.chunkCache c)).parser.messageParseState = .parseContentNoLength := hst
    rw [scan_next hturn, ih hst', ← cacheByte_append]
    rfl

/-- Data inside of a chunk is put into the cache. -/
lemma scan_chunkData {maxContentLength : ℕ} {h : ChunkMachine} {cache w : Bytes}
    (hst : h.chunkedContentParseState = .parseChunk)
    (hlt : h.bytesReadInCurrentChunk < h.sizeOfCurrentChunk)
    (hw : h.bytesReadInCurrentChunk + w.length ≤ h.sizeOfCurrentChunk) :
    scan (parseChunksChar maxContentLength) (h, cache) w =
      ⟨none, [], ({ h with
          bytesReadInCurrentChunk := h.bytesReadInCurrentChunk + w.length
          chunkedContentParseState :=
            if h.bytesReadInCurrentChunk + w.length = h.sizeOfCurrentChunk then
              .parseExpectingCrAfterChunk
            else .parseChunk },
        cache ++ w.take (maxContentLength - cache.length))⟩ := by
  induction w generalizing h cache with
  | nil =>
    obtain ⟨st, digits, size, got⟩ := h
    obtain rfl : st = .parseChunk := hst
    have hne : got ≠ size := Nat.ne_of_lt hlt
    simp [hne]
  | cons c w ih =>
    rw [List.length_cons] at hw
    have hturn : parseChunksChar maxContentLength (h, cache) c =
        .next ({ h with
          bytesReadInCurrentChunk := h.bytesReadInCurrentChunk + 1
          chunkedContentParseState :=
            if h.bytesReadInCurrentChunk + 1 = h.sizeOfCurrentChunk then
              .parseExpectingCrAfterChunk
            else .parseChunk }, cacheByte maxContentLength cache c) := by
      simp only [parseChunksChar, hst, hlt, true_and, if_true, cacheByte]
    rw [scan_next hturn, ← cacheByte_append]
    by_cases hfull : h.bytesReadInCurrentChunk + 1 = h.sizeOfCurrentChunk
    · -- the byte was the last one of the chunk
      obtain rfl : w = [] := List.length_eq_zero_iff.1 (by omega)
      simp
    · rw [if_neg hfull, ih rfl]
      · simp only [List.length_cons, Nat.add_assoc, Nat.add_comm 1]
      · show h.bytesReadInCurrentChunk + 1 < h.sizeOfCurrentChunk
        omega
      · show h.bytesReadInCurrentChunk + 1 + w.length ≤ h.sizeOfCurrentChunk
        omega

/-- The outcome of a chunked body is that of the loop over its chunks. -/
lemma scan_chunks {s : Session} (hst : s.parser.messageParseState = .parseChunks) (w : Bytes) :
    scan bodyTurn s w = leavePhase s.atChunks s.leaveChunks bodyTurn
      (scan (parseChunksChar s.parser.maxContentLength) (s.parser.chunk, s.msg.chunkCache) w) := by
  have hphase : ∀ t c, bodyTurn (s.atChunks t) c =
      phaseTurn (parseChunksChar s.parser.maxContentLength) s.atChunks s.leaveChunks bodyTurn t c :=
    fun t c => by
      have hst' : (s.atChunks t).parser.messageParseState = .parseChunks := hst
      rw [bodyTurn]
      rw [hst']
      exact phaseTurn_go (fun _ _ _ _ h => absurd h leaveChunks_ne_inr) t c
  exact scan_phase hphase (s.parser.chunk, s.msg.chunkCache) w

/-- One pass of `parse`, and the conclusion of the call. -/
def round (s : Session) : Tribool × Session := conclude s.parseRound.1 s.parseRound.2

lemma round_chunks {s : Session} (hst : s.parser.messageParseState = .parseChunks) :
    (outcome s.round).map forget = (scan bodyTurn s s.parser.readBuf).map forget := by
  rw [scan_chunks hst]
  have hdrained := scan_drained (parseChunksChar s.parser.maxContentLength)
    (s.parser.chunk, s.msg.chunkCache) s.parser.readBuf
  simp only [round, parseRound, hst, parseChunks]
  generalize scan (parseChunksChar s.parser.maxContentLength)
    (s.parser.chunk, s.msg.chunkCache) s.parser.readBuf = x at hdrained
  obtain ⟨result, rest, t⟩ := x
  cases result with
  | none =>
    obtain rfl : rest = [] := hdrained rfl
    refine Scanned.ext rfl rfl ?_
    simp only [Scanned.map, outcome, conclude, afterLoop, leavePhase, forget, atChunks, hst]
    rfl
  | some r =>
    cases r with
    | done => rfl
    | failed ev =>
      cases ev <;>
      · refine Scanned.ext rfl rfl ?_
        simp only [Scanned.map, outcome, conclude, afterLoop, leavePhase, leaveChunks, forget,
          atChunks, hst, setError]
        rfl

lemma round_content {s : Session} (hst : s.parser.messageParseState = .parseContent)
    (hs : s.Ready) :
    (outcome s.round).map forget = (scan bodyTurn s s.parser.readBuf).map forget := by
  obtain ⟨hpos, hlen⟩ := hs.2 hst
  have hcopied : ∀ n, n ≤ s.parser.bytesContentRemaining →
      (if s.parser.bytesContentRead < s.parser.maxContentLength then
        if (s.parser.bytesContentRead + n) % sizeMod > s.parser.maxContentLength then
          s.parser.maxContentLength - s.parser.bytesContentRead
        else n
      else 0) = min (s.parser.maxContentLength - s.parser.bytesContentRead) n := by
    intro n hn
    rw [Nat.mod_eq_of_lt (by omega)]
    split_ifs <;> omega
  simp only [round, parseRound, hst, consumeContent,
    if_neg (by omega : ¬ s.parser.bytesContentRemaining = 0)]
  rw [hcopied _ (Nat.min_le_right _ _), Nat.mod_eq_of_lt (by omega : s.parser.bytesContentRead +
    min s.parser.readBuf.length s.parser.bytesContentRemaining < sizeMod), ← List.take_take]
  by_cases hw : s.parser.readBuf.length < s.parser.bytesContentRemaining
  · rw [scan_content_open hst hw, if_neg (by omega), Nat.min_eq_left (by omega), List.drop_length,
      List.take_length]
    refine Scanned.ext rfl rfl ?_
    simp only [Scanned.map, outcome, conclude, forget, advanceContent, hst]
  · have hsplit := List.take_append_drop s.parser.bytesContentRemaining s.parser.readBuf
    have htake : (s.parser.readBuf.take s.parser.bytesContentRemaining).length =
        s.parser.bytesContentRemaining := by
      rw [List.length_take]
      omega
    have hne : s.parser.readBuf.take s.parser.bytesContentRemaining ≠ [] := by
      intro h
      rw [h] at htake
      simp at htake
      omega
    conv_rhs => rw [← hsplit]
    rw [scan_content_done hst htake hne, if_pos (by omega), Nat.min_eq_right (by omega)]
    refine Scanned.ext rfl rfl ?_
    simp only [Scanned.map, outcome, conclude, forget, advanceContent, hst, htake]
    rfl

lemma round_contentNoLength {s : Session}
    (hst : s.parser.messageParseState = .parseContentNoLength) :
    (outcome s.round).map forget = (scan bodyTurn s s.parser.readBuf).map forget := by
  rw [scan_contentNoLength hst]
  simp only [round, parseRound, hst, consumeContentAsNextChunk]
  refine Scanned.ext rfl rfl ?_
  simp only [Scanned.map, outcome, conclude, forget, atChunks, hst]
  rfl

/-- A header without a result leads to the body, which can take bytes. -/
lemma finishHeaderParsing_open {s u : Session}
    (h : s.finishHeaderParsing = (.indeterminate, u)) :
    u.InBody ∧ u.Ready ∧ u.msg.gaps = s.msg.gaps := by
  rw [finishHeaderParsing_eq] at h
  cases hf : framing s.parser.isRequest s.headed with
  | chunked =>
    rw [hf] at h
    obtain rfl := (Prod.mk.inj h).2
    exact ⟨Or.inl rfl, ⟨by simp, by simp⟩, s.headed_gaps⟩
  | empty => simp [hf, startBody] at h
  | invalidLength => simp [hf, startBody] at h
  | length n =>
    rw [hf] at h
    obtain rfl := (Prod.mk.inj h).2
    obtain ⟨hpos, hlt⟩ := framing_length hf
    exact ⟨Or.inr (Or.inl rfl), ⟨by simp, fun _ => ⟨hpos, by simpa using hlt⟩⟩, s.headed_gaps⟩
  | untilEof =>
    rw [hf] at h
    obtain rfl := (Prod.mk.inj h).2
    exact ⟨Or.inr (Or.inr rfl), ⟨by simp, by simp⟩, s.headed_gaps⟩

/-- A byte of the body that is followed by more leaves the body open. -/
lemma bodyTurn_open {s s' : Session} {c : Byte} (hs : s.Ready) (h : s.bodyTurn c = .next s') :
    s'.InBody ∧ s'.Ready ∧ s'.msg.gaps = s.msg.gaps := by
  rcases bodyTurn_next h with ⟨hst, t, -, rfl⟩ | ⟨hst, hr, rfl⟩ | ⟨hst, rfl⟩
  · exact ⟨Or.inl hst, ⟨by simp [atChunks, hst], by simp [atChunks, hst]⟩, rfl⟩
  · obtain ⟨hpos, hlen⟩ := hs.2 hst
    refine ⟨Or.inr (Or.inl hst), ⟨by simp [takeContent, hst], fun _ => ?_⟩, ?_⟩
    · simp only [takeContent]
      omega
    · simp only [takeContent]
      split_ifs <;> rfl
  · exact ⟨Or.inr (Or.inr hst), ⟨by simp [atChunks, hst], by simp [atChunks, hst]⟩, rfl⟩

/-- A byte that is followed by more leaves the machine ready for it. -/
lemma byteTurn_open {s s' : Session} {c : Byte} (hs : s.Ready) (h : s.byteTurn c = .next s') :
    s'.Ready ∧ s'.msg.gaps = s.msg.gaps := by
  have hheaders : s.headerTurn c = .next s' → s'.Ready ∧ s'.msg.gaps = s.msg.gaps := by
    intro h
    rcases headerTurn_next h with ⟨t, ht, rfl⟩ | ⟨-, u, hu, h⟩
    · exact ⟨⟨by simp [atHeaders], by simp [atHeaders]⟩,
        HTTPMessage.gaps_eq (parseHeadersSwitch_next ht)⟩
    · obtain ⟨-, hready, hgaps⟩ := finishHeaderParsing_open hu
      rcases h with rfl | h
      · exact ⟨hready, hgaps⟩
      · obtain ⟨-, hready', hgaps'⟩ := bodyTurn_open hready h
        exact ⟨hready', hgaps'.trans hgaps⟩
  rw [byteTurn] at h
  cases hst : s.parser.messageParseState with
  | parseStart => exact hheaders (by simpa [hst] using h)
  | parseHeaders => exact hheaders (by simpa [hst] using h)
  | _ => exact (bodyTurn_open hs (by simpa [hst] using h)).2

lemma scan_body {s : Session} (hb : s.InBody) (hs : s.Ready) (w : Bytes) :
    scan byteTurn s w = scan bodyTurn s w := by
  refine scan_congr (P := fun s => s.InBody ∧ s.Ready) ?_ ?_ ⟨hb, hs⟩ w
  · intro t c t' ht h
    rw [byteTurn_body ht.1] at h
    obtain ⟨hb', hs', -⟩ := bodyTurn_open ht.2 h
    exact ⟨hb', hs'⟩
  · exact fun t c ht => byteTurn_body ht.1 c

/-- A pass over the body does what the machine does with the bytes. -/
lemma round_body {s : Session} (hb : s.InBody) (hs : s.Ready) :
    (outcome s.round).map forget = (scan byteTurn s s.parser.readBuf).map forget := by
  rw [scan_body hb hs]
  rcases hb with h | h | h
  · exact round_chunks h
  · exact round_content h hs
  · exact round_contentNoLength h

/-! ### The loop of `parse` -/

@[simp] lemma conclude_fst (rc : Tribool) (s : Session) : (conclude rc s).1 = rc := by
  cases rc <;> rfl

@[simp] lemma conclude_readBuf (rc : Tribool) (s : Session) :
    (conclude rc s).2.parser.readBuf = s.parser.readBuf := by
  cases rc <;> rfl

/-- The result and the session behind the loop of `parse`. -/
def loop (n total : ℕ) (s : Session) : Tribool × Session :=
  ((parseLoop n total s).1, (parseLoop n total s).2.2)

/-- The loop makes another pass as long as there is no result and the buffer is not empty. -/
lemma loop_succ (n total : ℕ) (s : Session) : ∃ total',
    loop (n + 1) total s =
      if s.parseRound.1 = .indeterminate ∧ s.parseRound.2.parser.readBuf ≠ [] then
        loop n total' s.parseRound.2
      else s.parseRound := by
  refine ⟨if s.parser.messageParseState = .parseEnd then total
    else total + s.parseRound.2.parser.bytesLastRead, ?_⟩
  simp only [loop, parseLoop, HTTPParser.eof, ne_eq, Bool.not_eq_true', decide_eq_false_iff_not]
  split_ifs <;> rfl

/-- A loop that starts in the body makes one pass. -/
lemma loop_body {s : Session} (hb : s.InBody) (hs : s.Ready) (n total : ℕ) :
    loop (n + 1) total s = s.parseRound := by
  obtain ⟨total', h⟩ := loop_succ n total s
  have hround := round_body hb hs
  rw [h, if_neg]
  rintro ⟨hrc, hbuf⟩
  have hresult : (scan byteTurn s s.parser.readBuf).result = none := by
    have := congrArg Scanned.result hround
    simpa [Scanned.map, outcome, round, hrc, known] using this.symm
  have hrest := congrArg Scanned.rest hround
  simp only [Scanned.map, outcome, round, conclude_readBuf, scan_drained _ _ _ hresult] at hrest
  exact hbuf hrest

lemma finishHeaderParsing_readBuf (s : Session) :
    s.finishHeaderParsing.2.parser.readBuf = s.parser.readBuf := by
  rw [finishHeaderParsing_eq]
  cases framing s.parser.isRequest s.headed <;> rfl

/-- A header that begins in a buffer is read as the machine reads its bytes. -/
lemma scan_headers {s : Session} (hs : s.InHeaders) {w : Bytes} (hw : w ≠ []) :
    scan byteTurn s w = leavePhase s.atHeaders s.leaveHeaders byteTurn
      (scan (parseHeadersChar s.parser.isRequest s.parser.saveRawHeaders)
        (s.parser.header, s.msg) w) := by
  have hphase : ∀ t c, byteTurn (s.atHeaders t) c =
      phaseTurn (parseHeadersChar s.parser.isRequest s.parser.saveRawHeaders) s.atHeaders
        s.leaveHeaders byteTurn t c := by
    intro t c
    rw [byteTurn_headers (Or.inr rfl)]
    refine phaseTurn_go (fun r t u c hu => (byteTurn_body ?_ c).symm) t c
    cases r with
    | failed ev => simp [leaveHeaders] at hu
    | done =>
      rcases hx : (s.atHeaders t).finishHeaderParsing with ⟨rc, u'⟩
      have hu' : settle (s.atHeaders t).finishHeaderParsing = .inr u := hu
      rw [hx] at hu'
      cases rc with
      | yes => simp [settle] at hu'
      | no => simp [settle] at hu'
      | indeterminate =>
        obtain rfl := Sum.inr.inj hu'
        exact (finishHeaderParsing_open hx).1
  rw [← scan_phase hphase]
  obtain ⟨c, w, rfl⟩ := List.exists_cons_of_ne_nil hw
  have hturn : s.byteTurn c = (s.atHeaders (s.parser.header, s.msg)).byteTurn c := by
    rw [byteTurn_headers hs, byteTurn_headers (Or.inr rfl)]
    rfl
  simp only [scan, hturn]

/-- One pass of `parse` over the header, by the outcome of the loop over its bytes. -/
lemma parseRound_headers {s : Session} (hs : s.InHeaders)
    {x : Scanned Byte (HeaderMachine × HTTPMessage) LoopEnd}
    (hx : scan (parseHeadersChar s.parser.isRequest s.parser.saveRawHeaders)
      (s.parser.header, s.msg) s.parser.readBuf = x) :
    ∃ u : Session, u.parser.readBuf = x.rest ∧
      match x.result with
      | none => s.parseRound = (.indeterminate, u) ∧ u.forget = (s.atHeaders x.state).forget
      | some (.failed ev) =>
          s.parseRound = (.no, u) ∧ u.forget = ((s.atHeaders x.state).setError ev).forget
      | some .done =>
          s.parseRound = u.finishHeaderParsing ∧ u.forget = (s.atHeaders x.state).forget := by
  have hx' : scan (parseHeadersChar (s.atHeaders (s.parser.header, s.msg)).parser.isRequest
      (s.atHeaders (s.parser.header, s.msg)).parser.saveRawHeaders)
      ((s.atHeaders (s.parser.header, s.msg)).parser.header,
        (s.atHeaders (s.parser.header, s.msg)).msg)
      (s.atHeaders (s.parser.header, s.msg)).parser.readBuf = x := hx
  rw [parseRound_eq_headersPass hs, headersPass]
  simp only [parseHeaders, hx']
  obtain ⟨result, rest, t⟩ := x
  cases result with
  | none => exact ⟨_, rfl, rfl, rfl⟩
  | some r =>
    cases r with
    | done => exact ⟨_, rfl, rfl, rfl⟩
    | failed ev => cases ev <;> exact ⟨_, rfl, rfl, rfl⟩

/-- The conclusion of the loop of `parse` is what the machine makes of the buffer. -/
lemma loop_headers {s : Session} (hs : s.InHeaders) (hw : s.parser.readBuf ≠ []) (n total : ℕ) :
    (outcome (conclude (loop (n + 2) total s).1 (loop (n + 2) total s).2)).map forget =
      (scan byteTurn s s.parser.readBuf).map forget := by
  rw [scan_headers hs hw]
  obtain ⟨total', hloop⟩ := loop_succ (n + 1) total s
  rw [hloop]
  have hdrained := scan_drained (parseHeadersChar s.parser.isRequest s.parser.saveRawHeaders)
    (s.parser.header, s.msg) s.parser.readBuf
  generalize hx : scan (parseHeadersChar s.parser.isRequest s.parser.saveRawHeaders)
    (s.parser.header, s.msg) s.parser.readBuf = x at hdrained
  obtain ⟨u, hrest, hround⟩ := parseRound_headers hs hx
  obtain ⟨result, rest, t⟩ := x
  obtain rfl : u.parser.readBuf = rest := hrest
  cases result with
  | none =>
    obtain ⟨hround, hu⟩ := hround
    have hnil : u.parser.readBuf = [] := hdrained rfl
    rw [hround, if_neg (by simp [hnil])]
    exact Scanned.ext rfl hnil hu
  | some r =>
    cases r with
    | failed ev =>
      obtain ⟨hround, hu⟩ := hround
      rw [hround, if_neg (by simp)]
      exact Scanned.ext rfl rfl (congrArg Prod.snd (concludes_forget.congr .no hu))
    | done =>
      obtain ⟨hround, hu⟩ := hround
      have hcongr : u.finishHeaderParsing.map id forget =
          (s.atHeaders t).finishHeaderParsing.map id forget :=
        finishHeaderParsing_congr hu
      have hbuf := finishHeaderParsing_readBuf u
      rw [hround]
      simp only [leavePhase, leaveHeaders]
      rcases hv : u.finishHeaderParsing with ⟨rc, v⟩
      rcases hv' : (s.atHeaders t).finishHeaderParsing with ⟨rc', v'⟩
      rw [hv] at hbuf
      simp only [hv, hv', Prod.map, Prod.mk.injEq, id_eq] at hcongr
      obtain ⟨rfl, hforget⟩ := hcongr
      cases rc with
      | yes =>
        rw [if_neg (by simp)]
        exact Scanned.ext rfl hbuf (congrArg Prod.snd (concludes_forget.congr .yes hforget))
      | no =>
        rw [if_neg (by simp)]
        exact Scanned.ext rfl hbuf (congrArg Prod.snd (concludes_forget.congr .no hforget))
      | indeterminate =>
        by_cases hnil : v.parser.readBuf = []
        · rw [if_neg (by simp [hnil])]
          rw [← hbuf, hnil]
          exact Scanned.ext rfl hnil hforget
        · obtain ⟨hbody, hready, -⟩ := finishHeaderParsing_open hv
          rw [if_pos ⟨rfl, hnil⟩, loop_body hbody hready, ← hbuf]
          exact (round_body hbody hready).trans (byteTurn_respects.scan hforget _)

/-! ### Calls of `parse` -/

/-- Hand a buffer to the parser. -/
def read (s : Session) (w : Bytes) : Scanned Byte Session Tribool :=
  outcome (s.setReadBuffer w).parse

/-- One byte of a buffer that is handed to the parser. -/
def dataTurn (s : Session) (c : Byte) : Turn Session Tribool := s.markData.byteTurn c

lemma markData_eq_self {s : Session} :
    s.markData = s ↔ (s.msg.hasMissingPackets = true → s.msg.hasDataAfterMissing = true) := by
  rw [markData]
  split_ifs with h
  · constructor
    · intro hs _
      rw [← hs]
    · intro hd
      obtain ⟨p, m, ec⟩ := s
      cases m
      simp_all
  · simp [h]

lemma markData_markData (s : Session) : s.markData.markData = s.markData := by
  rw [markData_eq_self]
  rw [markData]
  split_ifs with h
  · exact fun _ => rfl
  · exact fun h' => absurd h' h

@[simp] lemma parser_markData (s : Session) : s.markData.parser = s.parser := by
  rw [markData]
  split_ifs <;> rfl

lemma markData_forget (s : Session) : s.forget.markData = s.markData.forget := by
  have hsame : s.forget.msg = s.msg := rfl
  unfold markData
  rw [hsame]
  split_ifs <;> rfl

lemma ready_congr {s s' : Session} (h : s.forget.parser = s'.forget.parser) (hs : s.Ready) :
    s'.Ready := by
  have hforget : ∀ s : Session, s.forget.Ready ↔ s.Ready := by
    intro s
    simp only [Ready, forget]
    refine and_congr Iff.rfl ?_
    constructor <;> exact fun hs hst => by simpa [hst] using hs hst
  have hs' : s.forget.Ready := (hforget s).2 hs
  rw [Ready] at hs'
  rw [h] at hs'
  exact (hforget s').1 hs'

lemma ready_markData {s : Session} (hs : s.Ready) : s.markData.Ready := by
  simpa [Ready] using hs

/-- The mark is set by the first byte and kept by all of them. -/
lemma scan_dataTurn {s : Session} (hs : s.Ready) {w : Bytes} (hw : w ≠ []) :
    scan dataTurn s w = scan byteTurn s.markData w := by
  have hmarked : ∀ {t : Session} (w : Bytes), t.Ready → t.markData = t →
      scan byteTurn t w = scan dataTurn t w := by
    intro t w ht hmark
    refine scan_congr (P := fun t => t.Ready ∧ t.markData = t) ?_ ?_ ⟨ht, hmark⟩ w
    · intro t c t' ht h
      obtain ⟨hready, hgaps⟩ := byteTurn_open ht.1 h
      refine ⟨hready, ?_⟩
      have h2 := ht.2
      rw [markData_eq_self] at h2 ⊢
      obtain ⟨hm, hd⟩ := Prod.mk.inj hgaps
      rwa [hm, hd]
    · intro t c ht
      rw [dataTurn, ht.2]
  obtain ⟨c, w, rfl⟩ := List.exists_cons_of_ne_nil hw
  rw [hmarked (c :: w) (ready_markData hs) s.markData_markData]
  simp only [scan, dataTurn, markData_markData]

lemma run_read {s : Session} (hs : s.Ready) {w : Bytes} (hw : w ≠ []) :
    (s.read w).map forget = (scan dataTurn s w).map forget := by
  have hbuf : (s.setReadBuffer w).markData.parser.readBuf = w := by
    rw [parser_markData]
    rfl
  have hready : (s.setReadBuffer w).markData.Ready :=
    ready_markData (ready_congr (rfl : s.forget.parser = (s.setReadBuffer w).forget.parser) hs)
  have hforget : (s.setReadBuffer w).markData.forget = s.markData.forget := by
    rw [← markData_forget, ← markData_forget]
    rfl
  have hloop : (s.read w).map forget =
      (outcome (conclude (loop 2 0 (s.setReadBuffer w).markData).1
        (loop 2 0 (s.setReadBuffer w).markData).2)).map forget := by
    simp only [read, parse, loop, maxRounds]
    rfl
  rw [hloop, scan_dataTurn hs hw, ← byteTurn_respects.scan hforget w]
  generalize (s.setReadBuffer w).markData = t at hbuf hready
  subst hbuf
  cases hst : t.parser.messageParseState with
  | parseStart => exact loop_headers (Or.inl hst) hw 0 0
  | parseHeaders => exact loop_headers (Or.inr hst) hw 0 0
  | parseEnd => exact absurd hst hready.1
  | parseChunks =>
    rw [loop_body (Or.inl hst) hready]
    exact round_body (Or.inl hst) hready
  | parseContent =>
    rw [loop_body (Or.inr (Or.inl hst)) hready]
    exact round_body (Or.inr (Or.inl hst)) hready
  | parseContentNoLength =>
    rw [loop_body (Or.inr (Or.inr hst)) hready]
    exact round_body (Or.inr (Or.inr hst)) hready

lemma dataTurn_respects : Respects forget dataTurn := by
  refine Respects.of_view fun s c => ?_
  rw [dataTurn, dataTurn, markData_forget]
  exact byteTurn_forget s.markData c

/-- A call of `parse` does with a buffer what the machine does with its bytes. -/
theorem parse_refines : Refines Ready (fun _ w => w ≠ []) forget id dataTurn read where
  respects := dataTurn_respects
  run := fun _ _ hs hw => run_read hs hw
  keeps := by
    intro s w hs hw h
    have hrun := run_read hs hw
    have hresult : (scan dataTurn s w).result = none := by
      rw [← h]
      exact (congrArg Scanned.result hrun).symm
    refine ready_congr (congrArg (fun x => x.state.parser) hrun).symm ?_
    refine scan_open (fun t c t' ht hc => ?_) hs hresult
    exact (byteTurn_open (ready_markData ht) hc).1

end Session

/-! ### Fragmentation -/

/-- A parser as it comes from its constructor, with a message and an error code. -/
def newSession (isRequest : Bool) (maxContentLength : ℕ) (parseHeadersOnly saveRawHeaders : Bool)
    (m : HTTPMessage) (ec : ErrorCode) : Session :=
  ⟨HTTPParser.new isRequest maxContentLength parseHeadersOnly saveRawHeaders, m, ec⟩

lemma newSession_ready (isRequest : Bool) (maxContentLength : ℕ)
    (parseHeadersOnly saveRawHeaders : Bool) (m : HTTPMessage) (ec : ErrorCode) :
    (newSession isRequest maxContentLength parseHeadersOnly saveRawHeaders m ec).Ready :=
  ⟨by simp [newSession, HTTPParser.new], by simp [newSession, HTTPParser.new]⟩

/-- What the caller sees of reading a byte string: the result, the bytes behind the read
pointer, the error code and the message. -/
def observed (x : Scanned Byte Session Tribool) :
    Option Tribool × Bytes × ErrorCode × HTTPMessage :=
  (x.result, x.rest, x.state.ec, x.state.msg)

/-- Hand the buffers of a list to the parser until a call comes to a result. -/
def readAll (s : Session) (pieces : List Bytes) : Scanned Byte Session Tribool :=
  feedAll id Session.read s pieces

/-- A byte string in one buffer; `parse` is not called with an empty one. -/
def inOneBuffer (w : Bytes) : List Bytes := if w = [] then [] else [w]

lemma inOneBuffer_ne_nil {w : Bytes} : ∀ u ∈ inOneBuffer w, u ≠ [] := by
  intro u hu
  rw [inOneBuffer] at hu
  split_ifs at hu with hnil
  · exact absurd hu List.not_mem_nil
  · rwa [List.mem_singleton.1 hu]

@[simp] lemma flatten_inOneBuffer (w : Bytes) : (inOneBuffer w).flatten = w := by
  rw [inOneBuffer]
  split_ifs with hnil
  · rw [hnil, List.flatten_nil]
  · simp

/-- The parser reads buffers as the machine reads their bytes. -/
lemma readAll_eq {s : Session} (hs : s.Ready) {pieces : List Bytes}
    (hpieces : ∀ w ∈ pieces, w ≠ []) :
    (readAll s pieces).map Session.forget =
      (scan Session.dataTurn s pieces.flatten).map Session.forget := by
  have h := Session.parse_refines.feedAll hs (along_of_forall (fun w hw _ => hpieces w hw) s)
  rwa [List.flatMap_id] at h

/-- What is forgotten is not observed. -/
lemma observed_of_forget {x y : Scanned Byte Session Tribool}
    (h : x.map Session.forget = y.map Session.forget) : observed x = observed y := by
  have hview : ∀ x : Scanned Byte Session Tribool, observed x = observed (x.map Session.forget) :=
    fun _ => rfl
  rw [hview, h, ← hview]

/-- Reads of a message without gaps are one scan of its bytes. -/
lemma readAll_eq_scan {s : Session} (hs : s.Ready) (hmark : s.markData = s) {pieces : List Bytes}
    (hpieces : ∀ w ∈ pieces, w ≠ []) :
    observed (readAll s pieces) = observed (scan Session.byteTurn s pieces.flatten) := by
  have h := readAll_eq hs hpieces
  by_cases hne : pieces.flatten = []
  · rw [hne, scan_nil] at h ⊢
    exact observed_of_forget h
  · rw [Session.scan_dataTurn hs hne, hmark] at h
    exact observed_of_forget h

/-- The same for a message in one piece. -/
lemma readAll_piece_eq_scan {s : Session} (hs : s.Ready) (hmark : s.markData = s) {w : Bytes}
    (hw : w ≠ []) : observed (readAll s [w]) = observed (scan Session.byteTurn s w) := by
  have hpieces : ∀ v ∈ [w], v ≠ [] := fun v hv => List.mem_singleton.1 hv ▸ hw
  have h := readAll_eq_scan hs hmark hpieces
  rwa [List.flatten_singleton] at h

/-- Reading a byte string does not depend on the way it is cut into buffers. -/
theorem parse_fragmentation (isRequest : Bool) (maxContentLength : ℕ)
    (parseHeadersOnly saveRawHeaders : Bool) (m : HTTPMessage) (ec : ErrorCode)
    (pieces : List Bytes) (hpieces : ∀ w ∈ pieces, w ≠ []) :
    let s := newSession isRequest maxContentLength parseHeadersOnly saveRawHeaders m ec
    observed (readAll s pieces) = observed (readAll s (inOneBuffer pieces.flatten)) := by
  intro s
  have hs : s.Ready := newSession_ready _ _ _ _ _ _
  have hone := readAll_eq hs (inOneBuffer_ne_nil (w := pieces.flatten))
  rw [flatten_inOneBuffer] at hone
  exact observed_of_forget ((readAll_eq hs hpieces).trans hone.symm)

/-- A response in pieces, cut inside of the version, of a line end and of the content: it
is read completely, and so it is in one buffer. -/
theorem parse_fragmentation_response :
    let s := newSession false defaultContentMax false false (.newResponse requestMethodGet) .success
    let pieces := [ascii "HTTP/1", ascii ".1 200 OK\r\nContent-Length: 3\r",
      ascii "\n\r\nab", ascii "cd"]
    (readAll s pieces).result = some .yes ∧
      observed (readAll s pieces) = observed (readAll s (inOneBuffer pieces.flatten)) :=
  ⟨by decide +kernel, parse_fragmentation false defaultContentMax false false
    (.newResponse requestMethodGet) .success _ (by decide)⟩

end PionCore.Net
