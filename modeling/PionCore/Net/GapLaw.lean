/-
# The gap law

A message that reaches the parser with gaps is parsed like the complete message with a
filler in the gaps, and its status tells of the loss, if and only if no gap straddles the
maximum content length (`gap_law`).  A gap that does leaves a hole in the content, which
what comes behind it does not fill (`deliverAll_hole`).
-/
import PionCore.Net.Gaps

namespace PionCore.Net

open PionCore.Lib

namespace HTTPMessage

/-- No byte of the stored content is left unset. -/
def Complete (m : HTTPMessage) : Prop := none ∉ m.contentCells

instance (m : HTTPMessage) : Decidable m.Complete := inferInstanceAs (Decidable (_ ∉ _))

lemma complete_of_eq {m : HTTPMessage} {v : Bytes} (h : m.contentCells = v.map some) :
    m.Complete := by
  rw [Complete, h]
  simp

/-- A cell of the content that is not set. -/
lemma not_complete {m : HTTPMessage} {i : ℕ} (hi : i < m.contentLength)
    (hcell : ((m.contentBuf.getD [])[i]?).join = none) : ¬ m.Complete := by
  intro h
  exact h (List.mem_map.2 ⟨i, List.mem_range.2 hi, hcell⟩)

/-- The status of a message parts of which are missing. -/
def TellsOfLoss (m : HTTPMessage) : Prop :=
  m.status = .statusPartial ∨ m.status = .statusTruncated

instance (m : HTTPMessage) : Decidable m.TellsOfLoss := inferInstanceAs (Decidable (_ ∨ _))

end HTTPMessage

namespace Session

/-! ### The end of a message -/

/-- The end changes the status, the flag and the parameters of the query. -/
lemma conclude_yes_withoutHead (s : Session) :
    (conclude .yes s).2.msg.withoutHead =
      (computeMsgStatus { s.msg with isValid := true } true).withoutHead :=
  HTTPMessage.withoutHead_parsePostContent s.parser.isRequest
    (computeMsgStatus { s.msg with isValid := true } true)

lemma conclude_yes_content (s : Session) :
    (conclude .yes s).2.msg.contentLength = s.msg.contentLength ∧
      (conclude .yes s).2.msg.contentBuf = s.msg.contentBuf := by
  have hlen := congrArg HTTPMessage.contentLength s.conclude_yes_withoutHead
  have hbuf := congrArg HTTPMessage.contentBuf s.conclude_yes_withoutHead
  exact ⟨hlen, hbuf⟩

lemma conclude_yes_cells (s : Session) :
    (conclude .yes s).2.msg.contentCells = s.msg.contentCells := by
  obtain ⟨hlen, hbuf⟩ := s.conclude_yes_content
  rw [HTTPMessage.contentCells, hlen, hbuf]
  rfl

lemma conclude_yes_tells {s : Session} (h : s.msg.hasMissingPackets = true) :
    (conclude .yes s).2.msg.TellsOfLoss := by
  have hstatus := congrArg HTTPMessage.status s.conclude_yes_withoutHead
  have hloss : (computeMsgStatus { s.msg with isValid := true } true).TellsOfLoss := by
    simp only [HTTPMessage.TellsOfLoss, computeMsgStatus, h, if_true]
    split_ifs <;> simp
  exact hloss.imp hstatus.trans hstatus.trans

/-! ### The stored content -/

/-- In the content, what was read below the maximum is stored, and nothing else is. -/
def Stored (s : Session) : Prop :=
  s.parser.messageParseState = .parseContent →
    s.msg.contentLength = min (s.parser.bytesContentRead + s.parser.bytesContentRemaining)
      s.parser.maxContentLength ∧
    (s.msg.contentLength + 1 < sizeMod → ∃ v : Bytes,
      v.length = min s.parser.bytesContentRead s.parser.maxContentLength ∧
      s.msg.contentBuf = some (v.map some ++
        (List.replicate (s.msg.contentLength - v.length) none ++ [some 0])))

lemma stored_blind (s : Session) : s.blind.Stored ↔ s.Stored := by
  simp only [Stored, blind, unmark, forget, HTTPMessage.unmark]
  refine forall_congr' fun hst => ?_
  rw [if_pos hst]

lemma stored_congr {s s' : Session} (h : s.blind = s'.blind) (hs : s.Stored) : s'.Stored := by
  rwa [← stored_blind, ← h, stored_blind]

/-- Every byte of content keeps the content stored. -/
lemma stored_takeContent {s : Session} (hs : s.Stored)
    (hst : s.parser.messageParseState = .parseContent)
    (hpos : 0 < s.parser.bytesContentRemaining) (c : Byte) : (s.takeContent c).Stored := by
  intro _
  obtain ⟨hlen, hstored⟩ := hs hst
  by_cases hlt : s.parser.bytesContentRead < s.parser.maxContentLength
  · have hmsg : (s.takeContent c).msg = s.msg.writeContent s.parser.bytesContentRead [c] :=
      if_pos hlt
    rw [hmsg]
    refine ⟨?_, fun hfits => ?_⟩
    · show s.msg.contentLength = _
      rw [hlen]
      simp only [takeContent]
      congr 1
      omega
    · obtain ⟨v, hv, hbuf⟩ := hstored hfits
      clear hstored
      obtain ⟨k, hk⟩ : ∃ k, s.msg.contentLength - v.length = k + 1 :=
        ⟨s.msg.contentLength - v.length - 1, by omega⟩
      have hread : s.parser.bytesContentRead = (v.map some).length := by
        rw [List.length_map]
        omega
      have hk' : s.msg.contentLength - (v ++ [c]).length = k := by
        rw [List.length_append, List.length_singleton]
        omega
      refine ⟨v ++ [c], ?_, ?_⟩
      · simp only [takeContent, List.length_append, List.length_singleton]
        omega
      · rw [HTTPMessage.writeContent_contentBuf hbuf, hread, Memory.write_eq _ _ (by simp)]
        show some _ =
          some (_ ++ (List.replicate (s.msg.contentLength - (v ++ [c]).length) none ++ _))
        rw [hk, hk']
        simp [List.replicate_succ]
  · have hmsg : (s.takeContent c).msg = s.msg := if_neg hlt
    rw [hmsg]
    refine ⟨?_, fun hfits => ?_⟩
    · rw [hlen]
      simp only [takeContent]
      congr 1
      omega
    · obtain ⟨v, hv, hbuf⟩ := hstored hfits
      refine ⟨v, ?_, hbuf⟩
      simp only [takeContent]
      omega

/-- The header makes room for the content. -/
lemma stored_finishHeaderParsing {s u : Session}
    (h : s.finishHeaderParsing = (.indeterminate, u)) : u.Stored := by
  rw [finishHeaderParsing_eq] at h
  cases hf : framing s.parser.isRequest s.headed with
  | chunked =>
    rw [hf] at h
    obtain rfl := (Prod.mk.inj h).2
    simp [Stored]
  | empty => simp [hf, startBody] at h
  | invalidLength => simp [hf, startBody] at h
  | untilEof =>
    rw [hf] at h
    obtain rfl := (Prod.mk.inj h).2
    simp [Stored]
  | length n =>
    rw [hf] at h
    obtain rfl := (Prod.mk.inj h).2
    intro _
    have hroom := fun hfits => HTTPMessage.createContentBuffer_eq
      (m := { s.headed with contentLength := min n s.parser.maxContentLength }) hfits
    refine ⟨?_, fun hfits => ⟨[], by simp, congrArg HTTPMessage.contentBuf (hroom hfits)⟩⟩
    show min n _ = _
    simp

/-- A session that is ready for more and has stored what came so far. -/
def Sound (s : Session) : Prop := s.Ready ∧ s.Stored

lemma sound_bodyTurn {s s' : Session} {c : Byte} (hs : s.Sound) (h : s.bodyTurn c = .next s') :
    s'.Sound := by
  refine ⟨(bodyTurn_open hs.1 h).2.1, ?_⟩
  rcases bodyTurn_next h with ⟨hst, t, -, rfl⟩ | ⟨hst, -, rfl⟩ | ⟨hst, rfl⟩
  · intro hst'
    exact absurd (hst.symm.trans hst') (by simp)
  · exact stored_takeContent hs.2 hst (hs.1.2 hst).1 c
  · intro hst'
    exact absurd (hst.symm.trans hst') (by simp)

lemma sound_byteTurn {s s' : Session} {c : Byte} (hs : s.Sound) (h : s.byteTurn c = .next s') :
    s'.Sound := by
  have hheaders : s.headerTurn c = .next s' → s'.Stored := by
    intro h
    rcases headerTurn_next h with ⟨t, -, rfl⟩ | ⟨-, u, hu, rfl | h⟩
    · simp [Stored, atHeaders]
    · exact stored_finishHeaderParsing hu
    · exact (sound_bodyTurn ⟨(finishHeaderParsing_open hu).2.1, stored_finishHeaderParsing hu⟩ h).2
  refine ⟨(byteTurn_open hs.1 h).1, ?_⟩
  rw [byteTurn] at h
  cases hst : s.parser.messageParseState with
  | parseStart => exact hheaders (by simpa [hst] using h)
  | parseHeaders => exact hheaders (by simpa [hst] using h)
  | _ => exact (sound_bodyTurn hs (by simpa [hst] using h)).2

lemma sound_markData {s : Session} (hs : s.Sound) : s.markData.Sound :=
  ⟨ready_markData hs.1, stored_congr s.blind_markData.symm hs.2⟩

/-- A delivery without a gap at the maximum keeps the content stored. -/
lemma sound_deliver {s : Session} {d : Delivery} (hs : s.Sound) (haccept : s.Accepts d)
    (hstraddle : ¬ s.Straddles d) (h : (s.deliver d).result = none) :
    (s.deliver d).state.Sound := by
  refine ⟨deliver_refines.keeps s d hs.1 ⟨haccept, hstraddle⟩ h, ?_⟩
  have hrun := run_deliver hs.1 haccept hstraddle
  have hresult : (scan dataTurn s d.bytes).result = none := by
    rw [← h]
    exact (congrArg Scanned.result hrun).symm
  refine stored_congr (congrArg Scanned.state hrun).symm ?_
  exact (scan_open (fun t c t' ht hc => sound_byteTurn (sound_markData ht) hc) hs hresult).2

/-- The content is complete where a body ends. -/
lemma complete_of_bodyTurn {s s' : Session} {c : Byte} {b : Bool} (hb : s.InBody) (hs : s.Sound)
    (h : s.bodyTurn c = .stop b .yes s') (hfits : s'.msg.contentLength + 1 < sizeMod) :
    s'.msg.Complete := by
  rcases bodyTurn_yes hb h with ⟨-, rfl⟩ | ⟨hst, hr, rfl⟩
  · rw [(conclude_yes_content _).1] at hfits
    rw [HTTPMessage.Complete, conclude_yes_cells]
    have hcat := HTTPMessage.concatenateChunks_eq (m := s.msg) hfits
    exact HTTPMessage.complete_of_eq (v := s.msg.chunkCache)
      (HTTPMessage.contentCells_eq (by rw [hcat]) (by rw [hcat]))
  · rw [(conclude_yes_content _).1] at hfits
    rw [HTTPMessage.Complete, conclude_yes_cells]
    obtain ⟨hlen, hstored⟩ := stored_takeContent hs.2 hst (hs.1.2 hst).1 c hst
    obtain ⟨v, hv, hbuf⟩ := hstored hfits
    refine HTTPMessage.complete_of_eq (HTTPMessage.contentCells_eq ?_ hbuf)
    rw [hlen, hv]
    simp [takeContent, hr]

/-! ### A gap at the maximum leaves a hole -/

/-- A cell of the content that was passed over is not set. -/
def Hole (s : Session) : Prop :=
  s.Ready ∧ s.parser.messageParseState = .parseContent ∧
    ∃ i, i < s.msg.contentLength ∧ i < s.parser.bytesContentRead ∧
      ((s.msg.contentBuf.getD [])[i]?).join = none

/-- A session with a hole, or a message that has got one. -/
def Spoilt (x : Scanned Byte Session Tribool) : Prop :=
  (x.result = none → x.state.Hole) ∧ (x.result ≠ none → ¬ x.state.msg.Complete)

lemma hole_blind (s : Session) : s.blind.Hole ↔ s.Hole := by
  have hparser : s.forget.forget.parser = s.forget.parser := congrArg parser (forget_forget s)
  have hready : s.blind.Ready ↔ s.Ready := ⟨ready_congr hparser, ready_congr hparser.symm⟩
  refine and_congr hready (and_congr_right fun hst => ?_)
  have hread : s.blind.parser.bytesContentRead = s.parser.bytesContentRead := if_pos hst
  rw [hread]
  rfl

lemma spoilt_blind {x y : Scanned Byte Session Tribool} (h : x.map blind = y.map blind)
    (hy : Spoilt y) : Spoilt x := by
  obtain ⟨hresult, -, hstate⟩ := Scanned.mk.inj h
  have hcells : x.state.msg.contentCells = y.state.msg.contentCells :=
    congrArg (fun s => s.msg.contentCells) hstate
  rw [Spoilt, hresult, HTTPMessage.Complete, hcells, ← hole_blind x.state, hstate, hole_blind]
  exact hy

/-- What is written behind a cell does not set it. -/
lemma cell_writeContent {m : HTTPMessage} {i j : ℕ} (hij : i < j) (w : Bytes)
    (hcell : ((m.contentBuf.getD [])[i]?).join = none) :
    (((m.writeContent j w).contentBuf.getD [])[i]?).join = none := by
  cases hbuf : m.contentBuf with
  | none => simp [HTTPMessage.writeContent, hbuf]
  | some cells =>
    rw [hbuf] at hcell
    rw [HTTPMessage.writeContent_contentBuf hbuf, Option.getD_some, Memory.getElem?_write,
      if_neg (by omega)]
    exact hcell

/-- The message of a session with an unset cell is not complete at its end. -/
lemma spoilt_yes {s : Session} {rest : Bytes} {i : ℕ} (hi : i < s.msg.contentLength)
    (hcell : ((s.msg.contentBuf.getD [])[i]?).join = none) :
    Spoilt ⟨some .yes, rest, (conclude .yes s).2⟩ := by
  refine ⟨by simp, fun _ => ?_⟩
  rw [HTTPMessage.Complete, conclude_yes_cells]
  exact HTTPMessage.not_complete hi hcell

/-- Content does not fill a hole. -/
lemma hole_read {s : Session} (hs : s.Hole) {w : Bytes} (hw : w ≠ []) : Spoilt (s.read w) := by
  obtain ⟨hready, hst, i, hi, hread, hcell⟩ := hs
  obtain ⟨hpos, hlen⟩ := hready.2 hst
  refine spoilt_blind (map_blind_of_forget (run_read hready hw)) ?_
  refine spoilt_blind (scan_dataTurn_blind hready w) ?_
  rw [scan_body (Or.inr (Or.inl hst)) hready]
  by_cases hopen : w.length < s.parser.bytesContentRemaining
  · rw [scan_content_open hst hopen]
    refine ⟨fun _ => ⟨⟨hready.1, fun _ => ?_⟩, hst, i, hi, ?_, ?_⟩, by simp⟩
    · show 0 < s.parser.bytesContentRemaining - w.length ∧
        s.parser.bytesContentRead + w.length + (s.parser.bytesContentRemaining - w.length) < sizeMod
      omega
    · exact Nat.lt_add_right _ hread
    · exact cell_writeContent hread _ hcell
  · have hsplit := List.take_append_drop s.parser.bytesContentRemaining w
    have htake : (w.take s.parser.bytesContentRemaining).length =
        s.parser.bytesContentRemaining := by
      rw [List.length_take]
      omega
    have hne : w.take s.parser.bytesContentRemaining ≠ [] :=
      List.ne_nil_of_length_pos (by omega)
    rw [← hsplit, scan_content_done hst htake hne]
    exact spoilt_yes hi (cell_writeContent hread _ hcell)

/-- The session behind a gap in the content. -/
def missContent (s : Session) (len : ℕ) : Session :=
  { s.markMissing with
    parser := { countMissing s.parser len with
      bytesContentRemaining := s.parser.bytesContentRemaining - len }
    msg :=
      if s.parser.bytesContentRead + len ≤ s.parser.maxContentLength then
        s.markMissing.msg.writeContent s.parser.bytesContentRead
          (List.replicate len missingDataChar)
      else s.markMissing.msg }

lemma deliver_lost_content {s : Session} (hs : s.Ready) {len : ℕ}
    (hst : s.parser.messageParseState = .parseContent) (haccept : s.Accepts (.lost len)) :
    s.deliver (.lost len) =
      if s.parser.bytesContentRemaining - len = 0 then
        ⟨some .yes, [], (conclude .yes (s.missContent len)).2⟩
      else ⟨none, [], s.missContent len⟩ := by
  obtain ⟨hpos, hsum⟩ := hs.2 hst
  have hle := le_remaining hs hst haccept
  have hround := missingRound_content (s := s.markMissing) hst hpos hle
  have hmod : (s.markMissing.parser.bytesContentRead + len) % sizeMod =
      s.parser.bytesContentRead + len :=
    Nat.mod_eq_of_lt (by show s.parser.bytesContentRead + len < sizeMod; omega)
  have hsame : s.markMissing.parser = s.parser := rfl
  rw [hmod, hsame] at hround
  have hstate : s.markMissing.missingRound len =
      (if s.parser.bytesContentRemaining - len = 0 then .yes else .indeterminate,
        s.missContent len) := hround
  rw [deliver_lost, hstate]
  split_ifs <;> rfl

/-- A gap behind an unset cell does not set it. -/
lemma spoilt_lost {s : Session} (hs : s.Ready) {len i : ℕ}
    (hst : s.parser.messageParseState = .parseContent) (haccept : s.Accepts (.lost len))
    (hi : i < s.msg.contentLength) (hread : i < s.parser.bytesContentRead + len)
    (hcell : (((s.missContent len).msg.contentBuf.getD [])[i]?).join = none) :
    Spoilt (s.deliver (.lost len)) := by
  obtain ⟨hpos, hsum⟩ := hs.2 hst
  have hle := le_remaining hs hst haccept
  have hlen : (s.missContent len).msg.contentLength = s.msg.contentLength := by
    simp only [missContent]
    split_ifs <;> rfl
  rw [deliver_lost_content hs hst haccept]
  split_ifs with hdone
  · exact spoilt_yes (by rwa [hlen]) hcell
  · have hmod : (s.missContent len).parser.bytesContentRead = s.parser.bytesContentRead + len :=
      Nat.mod_eq_of_lt (by omega)
    refine ⟨fun _ => ⟨⟨hs.1, fun _ => ?_⟩, hst, i, by rwa [hlen], by rwa [hmod], hcell⟩, by simp⟩
    rw [hmod]
    show 0 < s.parser.bytesContentRemaining - len ∧
      s.parser.bytesContentRead + len + (s.parser.bytesContentRemaining - len) < sizeMod
    omega

/-- Nothing that is delivered fills a hole. -/
lemma hole_deliver {s : Session} (hs : s.Hole) {d : Delivery} (haccept : s.Accepts d) :
    Spoilt (s.deliver d) := by
  cases d with
  | data w => exact hole_read hs haccept
  | lost len =>
    obtain ⟨hready, hst, i, hi, hread, hcell⟩ := hs
    refine spoilt_lost hready hst haccept hi (by omega) ?_
    simp only [missContent]
    split_ifs
    · exact cell_writeContent hread _ hcell
    · exact hcell

/-- A gap at the maximum is passed over, and the cells below the maximum are not set. -/
lemma straddles_deliver {s : Session} (hs : s.Sound) {d : Delivery} (haccept : s.Accepts d)
    (hstraddle : s.Straddles d) : Spoilt (s.deliver d) := by
  cases d with
  | data w => exact hstraddle.elim
  | lost len =>
    obtain ⟨hst, hlt, hgt⟩ := hstraddle
    obtain ⟨hpos, hsum⟩ := hs.1.2 hst
    have hle := le_remaining hs.1 hst haccept
    obtain ⟨hlen, hstored⟩ := hs.2 hst
    obtain ⟨v, hv, hbuf⟩ := hstored (by omega)
    clear hstored
    refine spoilt_lost hs.1 hst haccept (by omega : s.parser.bytesContentRead < _) (by omega) ?_
    have hskip : (s.missContent len).msg.contentBuf = s.msg.contentBuf := by
      simp only [missContent]
      rw [if_neg (by omega)]
      rfl
    have hfront : (v.map some).length = s.parser.bytesContentRead := by
      rw [List.length_map]
      omega
    rw [hskip, hbuf, Option.getD_some, List.getElem?_append_right (by omega), hfront, Nat.sub_self,
      List.getElem?_append_left (by rw [List.length_replicate]; omega),
      List.getElem?_replicate_of_lt (by omega)]
    rfl

/-! ### Whole deliveries -/

/-- Hand the parts of a message to the parser until a call comes to a result. -/
def deliverAll (s : Session) (ds : List Delivery) : Scanned Byte Session Tribool :=
  feedAll Delivery.bytes deliver s ds

/-- A message with a hole is not complete at its end. -/
lemma deliverAll_hole {s : Session} (hs : s.Hole) {ds : List Delivery}
    (hds : Along Accepts deliver s ds) (h : (s.deliverAll ds).result ≠ none) :
    ¬ (s.deliverAll ds).state.msg.Complete := by
  induction ds generalizing s with
  | nil => exact absurd rfl h
  | cons d ds ih =>
    have hstep := hole_deliver hs hds.1
    rw [deliverAll] at h ⊢
    cases hr : (s.deliver d).result with
    | none =>
      rw [feedAll_none hr] at h ⊢
      exact ih (hstep.1 hr) (hds.2 hr) h
    | some r =>
      rw [feedAll_some hr]
      exact hstep.2 (by simp [hr])

/-- A delivery with a gap at the maximum does not lead to a complete message. -/
lemma deliverAll_straddles {s : Session} (hs : s.Sound) {ds : List Delivery}
    (hds : Along Accepts deliver s ds) (hnot : ¬ Along (fun s d => ¬ s.Straddles d) deliver s ds)
    (h : (s.deliverAll ds).result ≠ none) : ¬ (s.deliverAll ds).state.msg.Complete := by
  induction ds generalizing s with
  | nil => exact absurd rfl h
  | cons d ds ih =>
    by_cases hstraddle : s.Straddles d
    · have hstep := straddles_deliver hs hds.1 hstraddle
      rw [deliverAll] at h ⊢
      cases hr : (s.deliver d).result with
      | none =>
        rw [feedAll_none hr] at h ⊢
        exact deliverAll_hole (hstep.1 hr) (hds.2 hr) h
      | some r =>
        rw [feedAll_some hr]
        exact hstep.2 (by simp [hr])
    · rw [deliverAll] at h ⊢
      cases hr : (s.deliver d).result with
      | none =>
        rw [feedAll_none hr] at h ⊢
        have hrest : ¬ Along (fun s d => ¬ s.Straddles d) deliver (s.deliver d).state ds :=
          fun hrest => hnot ⟨hstraddle, fun _ => hrest⟩
        exact ih (sound_deliver hs hds.1 hstraddle hr) (hds.2 hr) hrest h
      | some r => exact absurd ⟨hstraddle, fun hn => by simp [hr] at hn⟩ hnot

/-! ### What the status tells -/

lemma finishHeaderParsing_gaps (s : Session) :
    s.finishHeaderParsing.2.msg.gaps = s.msg.gaps := by
  have h := s.headed_gaps
  rw [finishHeaderParsing_eq]
  cases framing s.parser.isRequest s.headed <;> exact h

/-- A message some of whose packets are missing says so at its end. -/
lemma tells_of_byteTurn {s s' : Session} {c : Byte} {b : Bool} (hs : s.Ready)
    (hmark : s.msg.hasMissingPackets = true) (h : s.byteTurn c = .stop b .yes s') :
    s'.msg.TellsOfLoss := by
  have hbody : ∀ {u : Session}, u.InBody → u.msg.hasMissingPackets = true →
      u.bodyTurn c = .stop b .yes s' → s'.msg.TellsOfLoss := by
    intro u hu hmark h
    rcases bodyTurn_yes hu h with ⟨-, rfl⟩ | ⟨-, -, rfl⟩
    · exact conclude_yes_tells hmark
    · refine conclude_yes_tells ?_
      simp only [takeContent]
      split_ifs <;> exact hmark
  have hheaders : s.headerTurn c = .stop b .yes s' → s'.msg.TellsOfLoss := by
    intro h
    obtain ⟨-, u, hu⟩ := headerTurn_yes h
    have hgaps := finishHeaderParsing_gaps (s.atHeaders
      (saveRawHeader s.parser.saveRawHeaders s.parser.header c, s.msg))
    rcases hu with ⟨hu, rfl⟩ | ⟨hu, h⟩
    · rw [hu] at hgaps
      exact conclude_yes_tells ((Prod.mk.inj hgaps).1.trans hmark)
    · rw [hu] at hgaps
      exact hbody (finishHeaderParsing_open hu).1 ((Prod.mk.inj hgaps).1.trans hmark) h
  rw [byteTurn] at h
  cases hst : s.parser.messageParseState with
  | parseStart => exact hheaders (by simpa [hst] using h)
  | parseHeaders => exact hheaders (by simpa [hst] using h)
  | parseChunks => exact hbody (Or.inl hst) hmark (by simpa [hst] using h)
  | parseContent => exact hbody (Or.inr (Or.inl hst)) hmark (by simpa [hst] using h)
  | parseContentNoLength => exact hbody (Or.inr (Or.inr hst)) hmark (by simpa [hst] using h)
  | parseEnd => exact absurd hst hs.1

lemma missingRound_marks (s : Session) (len : ℕ) :
    (s.missingRound len).2.msg.hasMissingPackets = s.msg.hasMissingPackets := by
  rw [missingRound]
  dsimp only
  split <;> (try split_ifs) <;> rfl

/-- Once packets are missing, that is kept until the end, and told there. -/
lemma tells_of_deliver {s : Session} (hs : s.Ready) {d : Delivery} (haccept : s.Accepts d)
    (hmark : s.msg.hasMissingPackets = true ∨ ∃ len, d = .lost len) :
    ((s.deliver d).result = none → (s.deliver d).state.msg.hasMissingPackets = true) ∧
      ((s.deliver d).result = some .yes → (s.deliver d).state.msg.TellsOfLoss) := by
  cases d with
  | data w =>
    have hmark : s.msg.hasMissingPackets = true := hmark.resolve_right (by rintro ⟨len, ⟨⟩⟩)
    obtain ⟨hresult, -, hstate⟩ := Scanned.mk.inj (run_read hs haccept)
    have hmsg : (s.read w).state.msg = (scan dataTurn s w).state.msg :=
      (congrArg msg hstate : (s.read w).state.forget.msg = (scan dataTurn s w).state.forget.msg)
    have hmarked : ∀ t : Session, t.markData.msg.hasMissingPackets = t.msg.hasMissingPackets := by
      intro t
      rw [markData]
      split_ifs <;> rfl
    have hnext : ∀ (t : Session) (c : Byte) (t' : Session),
        t.Ready ∧ t.msg.hasMissingPackets = true → t.dataTurn c = .next t' →
          t'.Ready ∧ t'.msg.hasMissingPackets = true := by
      intro t c t' ht h
      obtain ⟨hready, hgaps⟩ := byteTurn_open (ready_markData ht.1) h
      exact ⟨hready, ((Prod.mk.inj hgaps).1.trans (hmarked t)).trans ht.2⟩
    show ((s.read w).result = none → _) ∧ ((s.read w).result = some .yes → _)
    rw [hresult]
    show (_ → (s.read w).state.msg.hasMissingPackets = true) ∧
      (_ → (s.read w).state.msg.TellsOfLoss)
    rw [hmsg]
    refine ⟨fun h => (scan_open hnext ⟨hs, hmark⟩ h).2, fun h => ?_⟩
    refine scan_closed (Q := fun r t => r = .yes → t.msg.TellsOfLoss) hnext ?_ ⟨hs, hmark⟩ h rfl
    rintro t c b r t' ht hc rfl
    exact tells_of_byteTurn (ready_markData ht.1) ((hmarked t).trans ht.2) hc
  | lost len =>
    have hround : (s.markMissing.missingRound len).2.msg.hasMissingPackets = true :=
      missingRound_marks s.markMissing len
    rw [deliver_lost]
    generalize s.markMissing.missingRound len = x at hround
    obtain ⟨rc, u⟩ := x
    cases rc with
    | yes => exact ⟨by simp [known], fun _ => conclude_yes_tells hround⟩
    | no => exact ⟨by simp [known], by simp [known]⟩
    | indeterminate => exact ⟨fun _ => hround, by simp [known]⟩

lemma deliverAll_tells {s : Session} (hs : s.Ready) (hmark : s.msg.hasMissingPackets = true)
    {ds : List Delivery} (hds : Along (fun s d => s.Accepts d ∧ ¬ s.Straddles d) deliver s ds)
    (h : (s.deliverAll ds).result = some .yes) : (s.deliverAll ds).state.msg.TellsOfLoss := by
  induction ds generalizing s with
  | nil => cases h
  | cons d ds ih =>
    have hstep := tells_of_deliver hs hds.1.1 (Or.inl hmark)
    rw [deliverAll] at h ⊢
    cases hr : (s.deliver d).result with
    | none =>
      rw [feedAll_none hr] at h ⊢
      exact ih (deliver_refines.keeps s d hs hds.1 hr) (hstep.1 hr) (hds.2 hr) h
    | some r =>
      rw [feedAll_some hr] at h ⊢
      exact hstep.2 (hr.trans h)

/-! ### A message with gaps -/

/-- A part that arrives. -/
def IsData (_ : Session) (d : Delivery) : Prop := ∃ w, d = .data w

instance (s : Session) : (d : Delivery) → Decidable (IsData s d)
  | .data w => isTrue ⟨w, rfl⟩
  | .lost _ => isFalse (by rintro ⟨w, ⟨⟩⟩)

/-- A gap is in the body. -/
lemma inBody_of_accepts {s : Session} (hs : s.Ready) {len : ℕ} (haccept : s.Accepts (.lost len)) :
    s.InBody := by
  cases hst : s.parser.messageParseState with
  | parseStart => exact absurd haccept (not_accepts_headers (Or.inl hst))
  | parseHeaders => exact absurd haccept (not_accepts_headers (Or.inr hst))
  | parseChunks => exact Or.inl hst
  | parseContent => exact Or.inr (Or.inl hst)
  | parseContentNoLength => exact Or.inr (Or.inr hst)
  | parseEnd => exact absurd hst hs.1

/-- The content is complete at the end of what begins in the body. -/
lemma complete_of_scan {s : Session} (hb : s.InBody) (hs : s.Sound) {w : Bytes}
    (h : (scan dataTurn s w).result = some .yes)
    (hfits : (scan dataTurn s w).state.msg.contentLength + 1 < sizeMod) :
    (scan dataTurn s w).state.msg.Complete := by
  obtain ⟨hresult, -, hstate⟩ := Scanned.mk.inj (scan_dataTurn_blind hs.1 w)
  have hcells : (scan dataTurn s w).state.msg.contentCells =
      (scan byteTurn s w).state.msg.contentCells :=
    congrArg (fun s => s.msg.contentCells) hstate
  have hlen : (scan dataTurn s w).state.msg.contentLength =
      (scan byteTurn s w).state.msg.contentLength :=
    congrArg (fun s => s.msg.contentLength) hstate
  rw [HTTPMessage.Complete, hcells]
  rw [hlen] at hfits
  rw [hresult] at h
  rw [scan_body hb hs.1] at h hfits ⊢
  refine scan_closed (P := fun t => t.InBody ∧ t.Sound)
    (Q := fun r t => r = .yes → t.msg.contentLength + 1 < sizeMod → t.msg.Complete) ?_ ?_
    ⟨hb, hs⟩ h rfl hfits
  · exact fun t c t' ht hc => ⟨(bodyTurn_open ht.2.1 hc).1, sound_bodyTurn ht.2 hc⟩
  · rintro t c b r t' ht hc rfl hfits
    exact complete_of_bodyTurn ht.1 ht.2 hc hfits

/-- A message with gaps none of which is at the maximum is complete and tells of them. -/
lemma deliverAll_complete {s : Session} (hs : s.Sound) {ds : List Delivery}
    (hds : Along (fun s d => s.Accepts d ∧ ¬ s.Straddles d) deliver s ds)
    (hlost : ¬ Along IsData deliver s ds) (h : (s.deliverAll ds).result = some .yes)
    (hfits : (s.deliverAll ds).state.msg.contentLength + 1 < sizeMod) :
    (s.deliverAll ds).state.msg.Complete ∧ (s.deliverAll ds).state.msg.TellsOfLoss := by
  induction ds generalizing s with
  | nil => exact absurd trivial hlost
  | cons d ds ih =>
    cases d with
    | data w =>
      rw [deliverAll] at h hfits ⊢
      cases hr : (s.deliver (.data w)).result with
      | none =>
        rw [feedAll_none hr] at h hfits ⊢
        exact ih (sound_deliver hs hds.1.1 hds.1.2 hr) (hds.2 hr)
          (fun hrest => hlost ⟨⟨w, rfl⟩, fun _ => hrest⟩) h hfits
      | some r => exact absurd ⟨⟨w, rfl⟩, fun hn => by simp [hr] at hn⟩ hlost
    | lost len =>
      -- from the first gap on, the message is in its body
      constructor
      · have hb := inBody_of_accepts hs.1 hds.1.1
        obtain ⟨hresult, -, hstate⟩ := Scanned.mk.inj (deliver_refines.feedAll hs.1 hds)
        have hcells : (s.deliverAll (.lost len :: ds)).state.msg.contentCells =
            (scan dataTurn s
              ((Delivery.lost len :: ds).flatMap Delivery.bytes)).state.msg.contentCells :=
          congrArg (fun s => s.msg.contentCells) hstate
        have hlen : (s.deliverAll (.lost len :: ds)).state.msg.contentLength =
            (scan dataTurn s
              ((Delivery.lost len :: ds).flatMap Delivery.bytes)).state.msg.contentLength :=
          congrArg (fun s => s.msg.contentLength) hstate
        rw [HTTPMessage.Complete, hcells]
        exact complete_of_scan hb hs (hresult.symm.trans h) (hlen ▸ hfits)
      · have hstep := tells_of_deliver hs.1 hds.1.1 (Or.inr ⟨len, rfl⟩)
        rw [deliverAll] at h ⊢
        cases hr : (s.deliver (.lost len)).result with
        | none =>
          rw [feedAll_none hr] at h ⊢
          exact deliverAll_tells (deliver_refines.keeps s _ hs.1 hds.1 hr) (hstep.1 hr) (hds.2 hr) h
        | some r =>
          rw [feedAll_some hr] at h ⊢
          exact hstep.2 (hr.trans h)

end Session

/-! ### The gap law -/

/-- The complete message, with a filler for every byte that is lost. -/
def filled (ds : List Delivery) : Bytes := ds.flatMap Delivery.bytes

/-- What the gap law says of a delivery: the parser succeeds with the content of the complete
message, tells of the loss, and leaves no byte of the content unset. -/
def GapLaw (s : Session) (ds : List Delivery) : Prop :=
  (s.deliverAll ds).result = some .yes ∧
    (s.deliverAll ds).state.msg.contentCells =
      (readAll s (inOneBuffer (filled ds))).state.msg.contentCells ∧
    (s.deliverAll ds).state.msg.TellsOfLoss ∧ (s.deliverAll ds).state.msg.Complete

instance (s : Session) (ds : List Delivery) : Decidable (GapLaw s ds) :=
  inferInstanceAs (Decidable (_ ∧ _ ∧ _ ∧ _))

/-- The gap law holds of exactly the deliveries no gap of which straddles the maximum content
length. -/
theorem gap_law (isRequest : Bool) (maxContentLength : ℕ) (parseHeadersOnly saveRawHeaders : Bool)
    (m : HTTPMessage) (ec : ErrorCode) (ds : List Delivery) :
    let s := newSession isRequest maxContentLength parseHeadersOnly saveRawHeaders m ec
    let complete := readAll s (inOneBuffer (filled ds))
    Along Session.Accepts Session.deliver s ds → ¬ Along Session.IsData Session.deliver s ds →
    complete.result = some .yes → complete.state.msg.contentLength + 1 < sizeMod →
    (GapLaw s ds ↔ Along (fun s d => ¬ s.Straddles d) Session.deliver s ds) := by
  intro s complete haccept hlost hyes hsize
  have hready : s.Ready := newSession_ready _ _ _ _ _ _
  have hsound : s.Sound := ⟨hready, fun hst => by simp [s, newSession, HTTPParser.new] at hst⟩
  constructor
  · rintro ⟨hresult, -, -, hcomplete⟩
    by_contra hnot
    exact Session.deliverAll_straddles hsound haccept hnot (by simp [hresult]) hcomplete
  · intro hnot
    have hds := along_and.2 ⟨haccept, hnot⟩
    have hrefines := Session.deliver_refines.feedAll hready hds
    have hone := readAll_eq hready (inOneBuffer_ne_nil (w := filled ds))
    rw [flatten_inOneBuffer] at hone
    have hsame : (s.deliverAll ds).map Session.blind = complete.map Session.blind :=
      hrefines.trans (Session.map_blind_of_forget hone).symm
    obtain ⟨hresult, -, hstate⟩ := Scanned.mk.inj hsame
    have hlen : (s.deliverAll ds).state.msg.contentLength = complete.state.msg.contentLength :=
      congrArg (fun s => s.msg.contentLength) hstate
    have hdone := hresult.trans hyes
    obtain ⟨hcomplete, htells⟩ :=
      Session.deliverAll_complete hsound hds hlost hdone (hlen ▸ hsize)
    exact ⟨hdone, congrArg (fun s => s.msg.contentCells) hstate, htells, hcomplete⟩

/-- A gap in the middle of a chunk that exceeds the maximum. -/
theorem gap_law_of_chunk :
    let s := newSession true 3 false false (.newRequest []) .success
    let ds := [Delivery.data (ascii "PUT / HTTP/1.1\r\nTransfer-Encoding: chunked\r\n\r\n6\r\na"),
      .lost 4, .data (ascii "f\r\n0\r\n\r\n")]
    GapLaw s ds ↔ Along (fun s d => ¬ s.Straddles d) Session.deliver s ds :=
  gap_law true 3 false false (.newRequest []) .success _ (by decide +kernel) (by decide +kernel)
    (by decide +kernel) (by decide +kernel)

/-- Two bytes of content are received, the maximum is four, and three bytes are lost: neither
the third nor the fourth byte is stored. -/
theorem gap_law_fails :
    let s := newSession true 4 false false (.newRequest []) .success
    let ds := [Delivery.data (ascii "PUT / HTTP/1.1\r\nContent-Length: 6\r\n\r\nab"), .lost 3,
      .data (ascii "f")]
    Along Session.Accepts Session.deliver s ds ∧
      (readAll s (inOneBuffer (filled ds))).result = some .yes ∧
      (readAll s (inOneBuffer (filled ds))).state.msg.contentCells = (ascii "abXX").map some ∧
      (s.deliverAll ds).result = some .yes ∧
      (s.deliverAll ds).state.msg.contentCells = [some 97, some 98, none, none] ∧
      ¬ GapLaw s ds := by
  intro s ds
  decide +kernel

end PionCore.Net
