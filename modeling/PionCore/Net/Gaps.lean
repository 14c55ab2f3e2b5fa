/-
# Lost data

What the parser makes of a message parts of whose body are reported lost.  The gaps are
visible in two flags and in the status of the message only (`unmark`); up to these, a gap
is the filler that stands in for it, unless it straddles the maximum content length
(`deliver_refines`).
-/
import PionCore.Net.ContentBounds
import PionCore.Net.Fragmentation

namespace PionCore.Net

open PionCore.Lib

/-! ### What the marks of a gap do not change -/

namespace HTTPMessage

/-- A message without the marks of a gap and the status that depends on them. -/
def unmark (m : HTTPMessage) : HTTPMessage :=
  { m with status := .statusNone, hasMissingPackets := false, hasDataAfterMissing := false }

lemma unmark_updateTransferCodingUsingHeader (m : HTTPMessage) :
    m.unmark.updateTransferCodingUsingHeader = m.updateTransferCodingUsingHeader.unmark := by
  have hsame : m.unmark.headers = m.headers := rfl
  unfold updateTransferCodingUsingHeader
  rw [hsame]
  split <;> rfl

lemma unmark_updateMessageWithHeaderData (b : Bool) (p : HeaderMachine) (m : HTTPMessage) :
    updateMessageWithHeaderData b p m.unmark = (updateMessageWithHeaderData b p m).unmark := by
  obtain ⟨kind, line, valid, ch, sup, ds, ma, mi, len, buf, cache, hs, cs, st, hm, hd, ww⟩ := m
  cases kind <;> cases b <;>
    simp only [updateMessageWithHeaderData, Bool.false_eq_true, if_false, if_true] <;>
    (try split_ifs) <;> rfl

lemma unmark_parsePostContent (b : Bool) (m : HTTPMessage) :
    (parsePostContent b m.unmark).unmark = (parsePostContent b m).unmark := by
  obtain ⟨kind, line, valid, ch, sup, ds, ma, mi, len, buf, cache, hs, cs, st, hm, hd, ww⟩ := m
  have hsame : (HTTPMessage.mk kind line valid ch sup ds ma mi len buf cache hs cs st hm hd
      ww).unmark.getHeader headerContentType = (HTTPMessage.mk kind line valid ch sup ds ma mi len
      buf cache hs cs st hm hd ww).getHeader headerContentType := rfl
  unfold parsePostContent
  rw [hsame]
  split_ifs
  · cases kind <;> rfl
  · rfl

end HTTPMessage

/-- The header machine does not look at the marks. -/
lemma parseHeadersSwitch_unmark (isRequest : Bool) (h : HeaderMachine) (m : HTTPMessage)
    (c : Byte) :
    (parseHeadersSwitch isRequest h m.unmark c).map (Prod.map id HTTPMessage.unmark) =
      (parseHeadersSwitch isRequest h m c).map (Prod.map id HTTPMessage.unmark) := by
  obtain ⟨st, code, message, method, resource, query, raw, name, value⟩ := h
  cases st <;> simp only [parseHeadersSwitch, parseHeaderNameStart, parseHttpLetter] <;>
    (try split_ifs) <;> rfl

namespace Session

/-- A session without the marks of a gap. -/
def unmark (s : Session) : Session := { s with msg := s.msg.unmark }

lemma headed_unmark (s : Session) : s.unmark.headed = s.headed.unmark := by
  have hcoding := HTTPMessage.unmark_updateTransferCodingUsingHeader
    { s.msg with contentLength := 0 }
  have hdata := HTTPMessage.unmark_updateMessageWithHeaderData s.parser.isRequest s.parser.header
    { s.msg with contentLength := 0 }.updateTransferCodingUsingHeader
  rw [← hcoding] at hdata
  exact hdata

lemma finishHeaderParsing_unmark (s : Session) :
    s.unmark.finishHeaderParsing.map id unmark = s.finishHeaderParsing.map id unmark := by
  have hframing : framing s.parser.isRequest s.headed.unmark =
      framing s.parser.isRequest s.headed := rfl
  rw [finishHeaderParsing_eq, finishHeaderParsing_eq, headed_unmark]
  show (s.unmark.startBody (framing s.parser.isRequest s.headed.unmark)).map id unmark = _
  rw [hframing]
  cases framing s.parser.isRequest s.headed <;> simp only [startBody, headed_unmark] <;> rfl

lemma concludes_unmark : Concludes unmark := by
  intro rc s
  cases rc with
  | yes =>
    -- the status is the only trace that the marks leave at the end
    have hmsg : (conclude .yes s.unmark).2.msg.unmark = (conclude .yes s).2.msg.unmark := by
      have h := HTTPMessage.unmark_parsePostContent s.parser.isRequest
      have h1 := h (computeMsgStatus { s.unmark.msg with isValid := true } true)
      have h2 := h (computeMsgStatus { s.msg with isValid := true } true)
      exact h1.symm.trans h2
    exact congrArg (fun m => (Tribool.yes,
      Session.mk { s.parser with messageParseState := .parseEnd } m s.ec)) hmsg
  | no => rfl
  | indeterminate => rfl

lemma leaveHeaders_unmark (r : LoopEnd) (s : Session) (t : HeaderMachine × HTTPMessage) :
    (s.unmark.leaveHeaders r (t.map id HTTPMessage.unmark)).map (Prod.map id unmark) unmark =
      (s.leaveHeaders r t).map (Prod.map id unmark) unmark := by
  cases r with
  | failed ev => exact congrArg Sum.inl (concludes_unmark.congr .no (by cases ev <;> rfl))
  | done => exact concludes_unmark.settle (finishHeaderParsing_unmark (s.atHeaders t))

lemma leaveChunks_unmark (r : LoopEnd) (s : Session) (t : ChunkMachine × Bytes) :
    (s.unmark.leaveChunks r t).map (Prod.map id unmark) unmark =
      (s.leaveChunks r t).map (Prod.map id unmark) unmark := by
  cases r with
  | failed ev => exact congrArg Sum.inl (concludes_unmark.congr .no (by cases ev <;> rfl))
  | done => exact congrArg Sum.inl (concludes_unmark.congr .yes rfl)

lemma chunkTurn_unmark (s : Session) (c : Byte) :
    (s.unmark.chunkTurn c).map unmark = (s.chunkTurn c).map unmark := by
  refine phaseTurn_map (fun t => ?_) (fun r t => leaveChunks_unmark r s t) ?_ _ c
  · rfl
  · exact fun t t' _ ht => congrArg Turn.next ht

lemma bodyTurn_unmark (s : Session) (c : Byte) :
    (s.unmark.bodyTurn c).map unmark = (s.bodyTurn c).map unmark := by
  have hsame : s.unmark.parser.messageParseState = s.parser.messageParseState := rfl
  have htake : (s.unmark.takeContent c).unmark = (s.takeContent c).unmark := by
    have hr : s.unmark.parser = s.parser := rfl
    unfold takeContent
    rw [hr]
    dsimp only
    split_ifs <;> rfl
  unfold bodyTurn
  rw [hsame]
  cases s.parser.messageParseState with
  | parseChunks => exact chunkTurn_unmark s c
  | parseContent =>
    have hr : s.unmark.parser.bytesContentRemaining = s.parser.bytesContentRemaining := rfl
    show (contentTurn s.unmark c).map unmark = (contentTurn s c).map unmark
    unfold contentTurn
    rw [hr]
    split_ifs
    · have hc := congrArg Prod.snd (concludes_unmark.congr .yes htake)
      exact congrArg (Turn.stop true Tribool.yes) hc
    · exact congrArg Turn.next htake
  | parseContentNoLength => rfl
  | _ =>
    have hc := congrArg Prod.snd (concludes_unmark .yes s)
    exact congrArg (Turn.stop false Tribool.yes) hc

lemma bodyTurn_respects_unmark : Respects unmark bodyTurn := Respects.of_view bodyTurn_unmark

lemma headerTurn_unmark (s : Session) (c : Byte) :
    (s.unmark.headerTurn c).map unmark = (s.headerTurn c).map unmark := by
  refine phaseTurn_view (v := Prod.map id HTTPMessage.unmark) ?_ ?_ ?_ bodyTurn_respects_unmark
  · exact parseHeadersSwitch_unmark s.parser.isRequest _ s.msg c
  · intro t t' ht
    exact congrArg (fun u : HeaderMachine × HTTPMessage => s.atHeaders u) ht
  · intro r t t' ht
    have h1 := leaveHeaders_unmark r s t
    have h2 := leaveHeaders_unmark r s t'
    rw [← ht] at h2
    exact h1.symm.trans h2

lemma byteTurn_unmark (s : Session) (c : Byte) :
    (s.unmark.byteTurn c).map unmark = (s.byteTurn c).map unmark := by
  have hsame : s.unmark.parser.messageParseState = s.parser.messageParseState := rfl
  unfold byteTurn
  rw [hsame]
  cases s.parser.messageParseState with
  | parseStart => exact headerTurn_unmark s c
  | parseHeaders => exact headerTurn_unmark s c
  | _ => exact bodyTurn_unmark s c

/-! ### The part of a session that gaps do not change -/

/-- A session without what is forgotten, and without the marks of a gap. -/
def blind (s : Session) : Session := s.forget.unmark

lemma blind_markData (s : Session) : s.markData.blind = s.blind := by
  rw [markData]
  split_ifs <;> rfl

lemma byteTurn_blind : Respects blind byteTurn := by
  have hmap : ∀ (x : Turn Session Tribool),
      x.map blind = (x.map forget).map unmark ∧ x.map blind = (x.map unmark).map forget := by
    rintro (_ | _) <;> exact ⟨rfl, rfl⟩
  refine Respects.of_view fun s c => ?_
  calc (s.blind.byteTurn c).map blind
      = ((s.forget.unmark.byteTurn c).map unmark).map forget := (hmap _).2
    _ = ((s.forget.byteTurn c).map unmark).map forget := by rw [byteTurn_unmark]
    _ = ((s.forget.byteTurn c).map forget).map unmark := by rw [← (hmap _).2, (hmap _).1]
    _ = ((s.byteTurn c).map forget).map unmark := by rw [byteTurn_forget]
    _ = (s.byteTurn c).map blind := (hmap _).1.symm

lemma dataTurn_blind : Respects blind dataTurn := by
  intro s s' c h
  refine byteTurn_blind s.markData s'.markData c ?_
  rw [blind_markData, blind_markData, h]

/-- The first byte of data sets a mark, which is not seen. -/
lemma scan_dataTurn_blind {s : Session} (hs : s.Ready) (w : Bytes) :
    (scan dataTurn s w).map blind = (scan byteTurn s w).map blind := by
  rcases eq_or_ne w [] with rfl | hw
  · rfl
  · rw [scan_dataTurn hs hw]
    exact byteTurn_blind.scan (blind_markData s) w

end Session

/-! ### Deliveries -/

/-- A part of a message as it reaches the parser: bytes of it, or a report that some bytes
of it are lost. -/
inductive Delivery where
  | data (w : Bytes)
  | lost (len : ℕ)
deriving DecidableEq

/-- The bytes of a part, with a filler for those that are lost. -/
def Delivery.bytes : Delivery → Bytes
  | .data w => w
  | .lost len => List.replicate len Session.missingDataChar

namespace Session

/-- Hand a part of a message to the parser. -/
def deliver (s : Session) : Delivery → Scanned Byte Session Tribool
  | .data w => s.read w
  | .lost len => ⟨known (s.parseMissingData len).1, [], (s.parseMissingData len).2⟩

/-- The parts that can be handed over: a buffer is not empty, and a gap is not refused. -/
def Accepts (s : Session) : Delivery → Prop
  | .data w => w ≠ []
  | .lost len => (s.parseMissingData len).1 ≠ .no

instance (s : Session) : (d : Delivery) → Decidable (s.Accepts d)
  | .data w => inferInstanceAs (Decidable (w ≠ []))
  | .lost len => inferInstanceAs (Decidable ((s.parseMissingData len).1 ≠ .no))

/-- A gap in the content that begins below the maximum length and ends above it. -/
def Straddles (s : Session) : Delivery → Prop
  | .data _ => False
  | .lost len =>
      s.parser.messageParseState = .parseContent ∧
        s.parser.bytesContentRead < s.parser.maxContentLength ∧
        s.parser.maxContentLength < s.parser.bytesContentRead + len

/-! ### A gap is the filler that stands in for it -/

lemma conclude_blind {s s' : Session} (rc : Tribool) (h : s.blind = s'.blind) :
    (conclude rc s).2.blind = (conclude rc s').2.blind := by
  have hmark := concludes_unmark.congr rc (h : s.forget.unmark = s'.forget.unmark)
  have hs := congrArg Prod.snd (concludes_forget rc s)
  have hs' := congrArg Prod.snd (concludes_forget rc s')
  have hcomm : ∀ t : Session, t.forget.unmark = t.unmark.forget := fun _ => rfl
  calc (conclude rc s).2.blind
      = (conclude rc s.forget).2.forget.unmark := congrArg unmark hs.symm
    _ = (conclude rc s'.forget).2.unmark.forget := by
        rw [hcomm]
        exact congrArg (fun x => x.2.forget) hmark
    _ = (conclude rc s'.forget).2.forget.unmark := hcomm _
    _ = (conclude rc s').2.blind := congrArg unmark hs'

/-- The message takes a note of missing packets. -/
def markMissing (s : Session) : Session :=
  { s with msg := { s.msg with hasMissingPackets := true } }

lemma deliver_lost (s : Session) (len : ℕ) :
    s.deliver (.lost len) =
      ⟨known (s.markMissing.missingRound len).1, [],
        (conclude (s.markMissing.missingRound len).1 (s.markMissing.missingRound len).2).2⟩ := by
  show Scanned.mk (known (conclude _ _).1) _ _ = _
  rw [conclude_fst]
  rfl

lemma missingRound_content {s : Session} {len : ℕ}
    (hst : s.parser.messageParseState = .parseContent)
    (hpos : 0 < s.parser.bytesContentRemaining) (hle : len ≤ s.parser.bytesContentRemaining) :
    s.missingRound len =
      (if s.parser.bytesContentRemaining - len = 0 then .yes else .indeterminate,
        { s with
          parser := { countMissing s.parser len with
            bytesContentRemaining := s.parser.bytesContentRemaining - len }
          msg :=
            if (s.parser.bytesContentRead + len) % sizeMod ≤ s.parser.maxContentLength then
              s.msg.writeContent s.parser.bytesContentRead (List.replicate len missingDataChar)
            else s.msg }) := by
  simp only [missingRound, hst]
  rw [if_neg (Nat.ne_of_gt hpos), if_neg (not_lt.2 hle)]

/-- A gap that is longer than the rest of the content is refused. -/
lemma le_remaining {s : Session} (hs : s.Ready) {len : ℕ}
    (hst : s.parser.messageParseState = .parseContent) (haccept : s.Accepts (.lost len)) :
    len ≤ s.parser.bytesContentRemaining := by
  by_contra hlt
  refine haccept ?_
  simp only [parseMissingData, missingRound, hst, if_neg (Nat.ne_of_gt (hs.2 hst).1),
    if_pos (not_le.1 hlt)]
  rfl

/-- A gap in the content that does not straddle the maximum is content. -/
lemma lost_content {s : Session} (hs : s.Ready) {len : ℕ}
    (hst : s.parser.messageParseState = .parseContent)
    (haccept : s.Accepts (.lost len)) (hstraddle : ¬ s.Straddles (.lost len)) :
    (s.deliver (.lost len)).map blind =
      (scan bodyTurn s (Delivery.lost len).bytes).map blind := by
  obtain ⟨hpos, hsum⟩ := hs.2 hst
  have hlen : (Delivery.lost len).bytes.length = len := List.length_replicate
  have hle := le_remaining hs hst haccept
  have hmod : (s.parser.bytesContentRead + len) % sizeMod = s.parser.bytesContentRead + len :=
    Nat.mod_eq_of_lt (by omega)
  have hround := missingRound_content (s := s.markMissing) hst hpos hle
  have hu : (s.markMissing.missingRound len).2.blind =
      (s.advanceContent (Delivery.lost len).bytes).blind := by
    rw [hround]
    simp only [markMissing, blind, unmark, forget, countMissing, hst, if_true, hmod,
      advanceContent, hlen]
    -- either all of the filler is stored or none of it
    split_ifs with hfit
    · rw [List.take_of_length_le (by rw [hlen]; omega)]
      rfl
    · have h0 : s.parser.maxContentLength - s.parser.bytesContentRead = 0 := by
        by_contra hne
        exact hstraddle ⟨hst, by omega, by omega⟩
      rw [h0, List.take_zero, HTTPMessage.writeContent_nil]
      rfl
  rw [deliver_lost]
  by_cases hdone : len = s.parser.bytesContentRemaining
  · have hne : (Delivery.lost len).bytes ≠ [] := by
      intro h
      rw [h] at hlen
      simp at hlen
      omega
    have hscan := scan_content_done (u := []) hst (hlen.trans hdone) hne
    have hrc : (s.markMissing.missingRound len).1 = .yes := by
      rw [hround]
      exact if_pos (by show s.parser.bytesContentRemaining - len = 0; omega)
    rw [List.append_nil] at hscan
    rw [hscan, hrc]
    exact Scanned.ext rfl rfl (conclude_blind .yes hu)
  · have hrc : (s.markMissing.missingRound len).1 = .indeterminate := by
      rw [hround]
      exact if_neg (by show ¬ s.parser.bytesContentRemaining - len = 0; omega)
    rw [scan_content_open hst (by rw [hlen]; omega), hrc]
    exact Scanned.ext rfl rfl hu

lemma missingRound_chunks {s : Session} {len : ℕ}
    (hst : s.parser.messageParseState = .parseChunks)
    (hin : s.parser.chunk.chunkedContentParseState = .parseChunk ∧
      s.parser.chunk.bytesReadInCurrentChunk < s.parser.chunk.sizeOfCurrentChunk ∧
      s.parser.chunk.sizeOfCurrentChunk - s.parser.chunk.bytesReadInCurrentChunk ≥ len) :
    s.missingRound len =
      (.indeterminate, { s with
        parser := { countMissing s.parser len with
          chunk := { s.parser.chunk with
            bytesReadInCurrentChunk := s.parser.chunk.bytesReadInCurrentChunk + len
            chunkedContentParseState :=
              if s.parser.chunk.bytesReadInCurrentChunk + len = s.parser.chunk.sizeOfCurrentChunk
              then .parseExpectingCrAfterChunk else .parseChunk } }
        msg := { s.msg with
          chunkCache := cacheMissing s.msg.chunkCache len s.parser.maxContentLength } }) := by
  simp only [missingRound, hst]
  rw [if_pos hin, hin.1]

/-- A gap inside of a chunk is chunk data. -/
lemma lost_chunks {s : Session} {len : ℕ} (hst : s.parser.messageParseState = .parseChunks)
    (haccept : s.Accepts (.lost len)) :
    (s.deliver (.lost len)).map blind =
      (scan bodyTurn s (Delivery.lost len).bytes).map blind := by
  have hlen : (Delivery.lost len).bytes.length = len := List.length_replicate
  by_cases hin : s.parser.chunk.chunkedContentParseState = .parseChunk ∧
      s.parser.chunk.bytesReadInCurrentChunk < s.parser.chunk.sizeOfCurrentChunk ∧
      s.parser.chunk.sizeOfCurrentChunk - s.parser.chunk.bytesReadInCurrentChunk ≥ len
  · obtain ⟨hchunk, hlt, hle⟩ := hin
    have hscan : scan (parseChunksChar s.parser.maxContentLength)
        (s.parser.chunk, s.msg.chunkCache) (Delivery.lost len).bytes = _ :=
      scan_chunkData hchunk hlt (by omega)
    rw [scan_chunks hst, hscan, deliver_lost,
      missingRound_chunks (s := s.markMissing) hst ⟨hchunk, hlt, hle⟩, hlen]
    refine Scanned.ext rfl rfl ?_
    simp only [Scanned.map, leavePhase, conclude, blind, unmark, forget, countMissing, atChunks,
      markMissing, hst, cacheMissing, Delivery.bytes, List.take_replicate, Nat.min_comm]
    rfl
  · refine absurd ?_ haccept
    simp only [parseMissingData, missingRound, hst]
    rw [if_neg hin]
    rfl

/-- A gap in content of unknown length is content. -/
lemma lost_contentNoLength {s : Session} {len : ℕ}
    (hst : s.parser.messageParseState = .parseContentNoLength) :
    (s.deliver (.lost len)).map blind =
      (scan bodyTurn s (Delivery.lost len).bytes).map blind := by
  have hround : s.markMissing.missingRound len =
      (.indeterminate, { s.markMissing with
        parser := countMissing s.parser len
        msg := { s.markMissing.msg with
          chunkCache := cacheMissing s.msg.chunkCache len s.parser.maxContentLength } }) := by
    have hst' : s.markMissing.parser.messageParseState = .parseContentNoLength := hst
    simp only [missingRound, hst']
    rfl
  rw [scan_contentNoLength hst, deliver_lost, hround]
  refine Scanned.ext rfl rfl ?_
  simp only [Scanned.map, conclude, blind, unmark, forget, countMissing, atChunks, markMissing,
    hst, cacheMissing, Delivery.bytes, List.take_replicate, Nat.min_comm]
  rfl

/-- A gap in the header is refused. -/
lemma not_accepts_headers {s : Session} {len : ℕ} (hs : s.InHeaders) :
    ¬ s.Accepts (.lost len) := by
  intro h
  refine h ?_
  rcases hs with hst | hst <;> simp only [parseMissingData, missingRound, hst] <;> rfl

lemma map_blind_of_forget {x y : Scanned Byte Session Tribool} (h : x.map forget = y.map forget) :
    x.map blind = y.map blind :=
  (congrArg (Scanned.map unmark) h : (x.map forget).map unmark = (y.map forget).map unmark)

lemma run_deliver {s : Session} {d : Delivery} (hs : s.Ready) (haccept : s.Accepts d)
    (hstraddle : ¬ s.Straddles d) :
    (s.deliver d).map blind = (scan dataTurn s d.bytes).map blind := by
  cases d with
  | data w => exact map_blind_of_forget (run_read hs haccept)
  | lost len =>
    rw [scan_dataTurn_blind hs]
    have hbody : ∀ hb : s.InBody, (s.deliver (.lost len)).map blind =
        (scan bodyTurn s (Delivery.lost len).bytes).map blind →
        (s.deliver (.lost len)).map blind =
        (scan byteTurn s (Delivery.lost len).bytes).map blind := by
      intro hb h
      rw [h, scan_body hb hs]
    cases hst : s.parser.messageParseState with
    | parseStart => exact absurd haccept (not_accepts_headers (Or.inl hst))
    | parseHeaders => exact absurd haccept (not_accepts_headers (Or.inr hst))
    | parseChunks => exact hbody (Or.inl hst) (lost_chunks hst haccept)
    | parseContent => exact hbody (Or.inr (Or.inl hst)) (lost_content hs hst haccept hstraddle)
    | parseContentNoLength => exact hbody (Or.inr (Or.inr hst)) (lost_contentNoLength hst)
    | parseEnd => exact absurd hst hs.1

/-- Bytes and gaps are delivered to the parser as the machine reads the bytes and the fillers,
up to the marks, unless a gap straddles the maximum. -/
theorem deliver_refines :
    Refines Ready (fun s d => s.Accepts d ∧ ¬ s.Straddles d) blind Delivery.bytes dataTurn
      deliver where
  respects := dataTurn_blind
  run := fun _ _ hs hd => run_deliver hs hd.1 hd.2
  keeps := by
    rintro s d hs ⟨haccept, hstraddle⟩ h
    have hrun := run_deliver hs haccept hstraddle
    have hresult : (scan dataTurn s d.bytes).result = none := by
      rw [← h]
      exact (congrArg Scanned.result hrun).symm
    refine ready_congr (congrArg (fun x => x.state.parser) hrun).symm ?_
    refine scan_open (fun t c t' ht hc => ?_) hs hresult
    exact (byteTurn_open (ready_markData ht) hc).1

end Session

end PionCore.Net
