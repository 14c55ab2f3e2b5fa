/-
# A parser takes and counts every byte

A call of `parse` makes at most two passes over its loop: one over the headers, and one over what
there is of the body.  Where it comes to no result it has taken the whole buffer, and where it does
not fail `gcount` is the number of bytes that it has taken, which is added to the total.
-/
import PionCore.Net.ContentBounds
import PionCore.Net.Fragmentation

namespace PionCore.Net

open PionCore.Lib

namespace Session

/-! ### Passes of the loop -/

/-- The header machine does not look at the message. -/
lemma parseHeadersChar_respects_fst (isRequest saveRaw : Bool) :
    Respects Prod.fst (parseHeadersChar isRequest saveRaw) := by
  rintro ⟨p, m⟩ ⟨p', m'⟩ c h
  obtain rfl : p = p' := h
  unfold parseHeadersChar parseHeadersSwitch parseHeaderNameStart parseHttpLetter
  dsimp only
  split <;> (try split_ifs) <;> rfl

lemma afterLoop_open {s : Session} {p : HTTPParser} {m : HTTPMessage} {rest : Bytes}
    {content : Bool} {r : Option LoopEnd}
    (h : (s.afterLoop p m rest content r).1 = .indeterminate) : r = none := by
  rcases r with _ | _ | _ | _
  · rfl
  all_goals cases h

lemma afterLoop_readBuf (s : Session) (p : HTTPParser) (m : HTTPMessage) (rest : Bytes)
    (content : Bool) (r : Option LoopEnd) :
    (s.afterLoop p m rest content r).2.parser.readBuf = rest := by
  rcases r with _ | _ | _ | _ <;> rfl

/-- Headers that do not end are read to the end of the buffer. -/
lemma parseHeaders_drains {s : Session} (h : s.parseHeaders.1 = .indeterminate) :
    s.parseHeaders.2.parser.readBuf = [] := by
  rw [parseHeaders, afterLoop_readBuf]
  exact scan_drained _ _ _ (afterLoop_open h)

lemma parseChunks_drains {s : Session} (h : s.parseChunks.1 = .indeterminate) :
    s.parseChunks.2.parser.readBuf = [] := by
  rw [parseChunks, afterLoop_readBuf]
  exact scan_drained _ _ _ (afterLoop_open h)

lemma consumeContent_drains {s : Session} (h : s.consumeContent.1 = .indeterminate) :
    s.consumeContent.2.parser.readBuf = [] := by
  rw [consumeContent] at h ⊢
  by_cases hnone : s.parser.bytesContentRemaining = 0
  · rw [if_pos hnone] at h
    cases h
  · rw [if_neg hnone] at h ⊢
    by_cases henough : s.parser.readBuf.length ≥ s.parser.bytesContentRemaining
    · exact absurd ((if_pos henough).symm.trans h) (by simp)
    · exact List.drop_eq_nil_of_le (by omega)

lemma headersPass_again {s : Session} (h : s.headersPass.1 = .indeterminate)
    (hbuf : s.headersPass.2.parser.readBuf ≠ []) : s.headersPass.2.InBody := by
  rw [headersPass] at h hbuf ⊢
  split_ifs at h hbuf ⊢ with hyes
  · exact (finishHeaderParsing_open (Prod.ext h rfl)).1
  · exact absurd (parseHeaders_drains h) hbuf

/-- A pass that comes to no result in front of the end of the buffer has ended the headers. -/
lemma parseRound_again {s : Session} (h : s.parseRound.1 = .indeterminate)
    (hbuf : s.parseRound.2.parser.readBuf ≠ []) : s.parseRound.2.InBody := by
  cases hst : s.parser.messageParseState with
  | parseStart =>
    rw [parseRound_eq_headersPass (Or.inl hst)] at h hbuf ⊢
    exact headersPass_again h hbuf
  | parseHeaders =>
    rw [parseRound_eq_headersPass (Or.inr hst)] at h hbuf ⊢
    exact headersPass_again h hbuf
  | parseChunks =>
    rw [parseRound] at h hbuf
    simp only [hst] at h hbuf
    split_ifs at h hbuf
    · exact absurd (parseChunks_drains h) hbuf
    · exact absurd (parseChunks_drains h) hbuf
  | parseContent =>
    rw [parseRound] at h hbuf
    simp only [hst] at h hbuf
    exact absurd (consumeContent_drains h) hbuf
  | parseContentNoLength =>
    rw [parseRound] at hbuf
    simp only [hst] at hbuf
    exact absurd rfl hbuf
  | parseEnd =>
    rw [parseRound] at h
    simp only [hst] at h
    cases h

/-- In the body a pass without a result takes all that there is. -/
lemma parseRound_body {s : Session} (hb : s.InBody) (h : s.parseRound.1 = .indeterminate) :
    s.parseRound.2.parser.readBuf = [] := by
  rw [parseRound] at h ⊢
  rcases hb with hst | hst | hst
  · simp only [hst] at h ⊢
    split_ifs at h ⊢
    · exact parseChunks_drains h
    · exact parseChunks_drains h
  · simp only [hst] at h ⊢
    exact consumeContent_drains h
  · simp only [hst]
    rfl

lemma eof_iff (p : HTTPParser) : p.eof = true ↔ p.readBuf = [] := by
  rw [HTTPParser.eof, decide_eq_true_eq]

/-- The loop in the body ends with its first pass. -/
lemma parseLoop_body {s : Session} (hb : s.InBody) (n total : ℕ) :
    parseLoop (n + 1) total s =
      (s.parseRound.1, total + s.parseRound.2.parser.bytesLastRead, s.parseRound.2) := by
  have hend : s.parser.messageParseState ≠ .parseEnd := by
    rcases hb with hst | hst | hst <;> rw [hst] <;> simp
  rw [parseLoop]
  dsimp only
  rw [if_neg hend, if_neg]
  rintro ⟨hrc, heof⟩
  rw [Bool.not_eq_true', ← Bool.not_eq_true, eof_iff] at heof
  exact heof (parseRound_body hb hrc)

/-- The loop of `parse` ends behind two passes: it comes to a result, or to the end of the
buffer. -/
lemma parseLoop_ends (n total : ℕ) (s : Session) :
    parseLoop (n + maxRounds) total s = parseLoop maxRounds total s ∧
      ((parseLoop maxRounds total s).1 = .indeterminate →
        (parseLoop maxRounds total s).2.2.parser.readBuf = []) := by
  rw [show n + maxRounds = n + 1 + 1 from rfl, show maxRounds = 0 + 1 + 1 from rfl,
    parseLoop, parseLoop]
  dsimp only
  by_cases hagain : s.parseRound.1 = .indeterminate ∧ (! s.parseRound.2.parser.eof) = true
  · have hbuf := hagain.2
    rw [Bool.not_eq_true', ← Bool.not_eq_true, eof_iff] at hbuf
    have hb := parseRound_again hagain.1 hbuf
    rw [if_pos hagain, if_pos hagain, parseLoop_body hb, parseLoop_body hb]
    exact ⟨rfl, parseRound_body hb⟩
  · rw [if_neg hagain, if_neg hagain]
    refine ⟨rfl, fun h => ?_⟩
    by_contra hbuf
    rw [← eof_iff, Bool.not_eq_true, ← Bool.not_eq_true'] at hbuf
    exact hagain ⟨h, hbuf⟩

/-! ### What a call takes -/

/-- The second session has taken a number of bytes from the buffer, and has added it to its total,
in `size_t`. -/
structure Took (s : Session) (n : ℕ) (t : Session) : Prop where
  taken : ∃ v, s.parser.readBuf = v ++ t.parser.readBuf ∧ v.length = n
  total : t.parser.bytesTotalRead = (s.parser.bytesTotalRead + n) % sizeMod

lemma Took.trans {s t u : Session} {m n : ℕ} (h : s.Took m t) (h' : t.Took n u) :
    s.Took (m + n) u := by
  obtain ⟨⟨v, hv, hlen⟩, htotal⟩ := h
  obtain ⟨⟨v', hv', hlen'⟩, htotal'⟩ := h'
  refine ⟨⟨v ++ v', by rw [hv, hv', List.append_assoc], ?_⟩, ?_⟩
  · rw [List.length_append, hlen, hlen']
  · rw [htotal', htotal, Nat.mod_add_mod, Nat.add_assoc]

/-- The members that are not looked at may change. -/
lemma Took.congr {s s' t t' : Session} {n : ℕ} (h : s.Took n t)
    (hs : s'.parser.readBuf = s.parser.readBuf)
    (hstotal : s'.parser.bytesTotalRead = s.parser.bytesTotalRead)
    (ht : t'.parser.readBuf = t.parser.readBuf)
    (httotal : t'.parser.bytesTotalRead = t.parser.bytesTotalRead) : s'.Took n t' :=
  ⟨by rw [hs, ht]; exact h.taken, by rw [hstotal, httotal]; exact h.total⟩

/-- Between two calls there is content missing where content is read, and the total is one of a
`size_t`. -/
structure Awaits (s : Session) : Prop where
  remaining : s.parser.messageParseState = .parseContent → 0 < s.parser.bytesContentRemaining
  total : s.parser.bytesTotalRead < sizeMod

lemma took_afterLoop {s : Session} {p : HTTPParser} {m : HTTPMessage} {rest : Bytes}
    {content : Bool} {r : Option LoopEnd} (hrest : ∃ v, s.parser.readBuf = v ++ rest)
    (hp : p.bytesTotalRead = s.parser.bytesTotalRead)
    (hrc : (s.afterLoop p m rest content r).1 ≠ .no) :
    s.Took (s.afterLoop p m rest content r).2.parser.bytesLastRead
      (s.afterLoop p m rest content r).2 := by
  obtain ⟨v, hv⟩ := hrest
  have hlen : v.length = s.parser.readBuf.length - rest.length := by
    rw [hv, List.length_append, Nat.add_sub_cancel]
  rcases r with _ | _ | _ | _
  · exact ⟨⟨v, hv, hlen⟩, by rw [← hp]; rfl⟩
  · exact ⟨⟨v, hv, hlen⟩, by rw [← hp]; rfl⟩
  · exact absurd rfl hrc
  · exact absurd rfl hrc

lemma took_parseHeaders {s : Session} (h : s.parseHeaders.1 ≠ .no) :
    s.Took s.parseHeaders.2.parser.bytesLastRead s.parseHeaders.2 :=
  took_afterLoop (scan_rest _ _ _) rfl h

lemma took_parseChunks {s : Session} (h : s.parseChunks.1 ≠ .no) :
    s.Took s.parseChunks.2.parser.bytesLastRead s.parseChunks.2 :=
  took_afterLoop (scan_rest _ _ _) rfl h

lemma finishHeaderParsing_counters (s : Session) :
    s.finishHeaderParsing.2.parser.readBuf = s.parser.readBuf ∧
      s.finishHeaderParsing.2.parser.bytesTotalRead = s.parser.bytesTotalRead ∧
      s.finishHeaderParsing.2.parser.bytesLastRead = s.parser.bytesLastRead := by
  rw [finishHeaderParsing_eq]
  cases framing s.parser.isRequest s.headed <;> exact ⟨rfl, rfl, rfl⟩

lemma took_headersPass {s : Session} (hrc : s.headersPass.1 ≠ .no) :
    s.Took s.headersPass.2.parser.bytesLastRead s.headersPass.2 := by
  rw [headersPass] at hrc ⊢
  split_ifs at hrc ⊢ with hyes
  · obtain ⟨hbuf, htotal, hlast⟩ := s.parseHeaders.2.finishHeaderParsing_counters
    rw [hlast]
    exact (took_parseHeaders (by simp [hyes])).congr rfl rfl hbuf htotal
  · exact took_parseHeaders hrc

/-- A pass that does not fail counts what it takes. -/
lemma took_parseRound {s : Session} (hs : s.Awaits)
    (hend : s.parser.messageParseState ≠ .parseEnd) (hrc : s.parseRound.1 ≠ .no) :
    s.Took s.parseRound.2.parser.bytesLastRead s.parseRound.2 := by
  cases hst : s.parser.messageParseState with
  | parseStart =>
    rw [parseRound_eq_headersPass (Or.inl hst)] at hrc ⊢
    exact (took_headersPass hrc).congr rfl rfl rfl rfl
  | parseHeaders =>
    rw [parseRound_eq_headersPass (Or.inr hst)] at hrc ⊢
    exact (took_headersPass hrc).congr rfl rfl rfl rfl
  | parseChunks =>
    rw [parseRound] at hrc ⊢
    simp only [hst] at hrc ⊢
    split_ifs at hrc ⊢ with hyes
    · exact (took_parseChunks (by simp [hyes])).congr rfl rfl rfl rfl
    · exact took_parseChunks hrc
  | parseContent =>
    have hlen : (s.parser.readBuf.take (min s.parser.readBuf.length
        s.parser.bytesContentRemaining)).length =
          min s.parser.readBuf.length s.parser.bytesContentRemaining := by
      rw [List.length_take]
      omega
    rw [parseRound]
    simp only [hst]
    rw [consumeContent, if_neg (Nat.ne_of_gt (hs.remaining hst))]
    exact ⟨⟨_, (List.take_append_drop _ _).symm, hlen⟩, rfl⟩
  | parseContentNoLength =>
    rw [parseRound]
    simp only [hst]
    exact ⟨⟨s.parser.readBuf, (List.append_nil _).symm, rfl⟩, rfl⟩
  | parseEnd => exact absurd hst hend

/-! ### Sessions between two calls -/

lemma awaits_finishHeaderParsing {s : Session} (hst : s.parser.messageParseState ≠ .parseContent)
    (htotal : s.parser.bytesTotalRead < sizeMod) : s.finishHeaderParsing.2.Awaits := by
  refine ⟨?_, by rw [s.finishHeaderParsing_counters.2.1]; exact htotal⟩
  rw [finishHeaderParsing_eq]
  cases hf : framing s.parser.isRequest s.headed with
  | length n => exact fun _ => (framing_length hf).1
  | invalidLength => exact fun h => absurd h hst
  | chunked | empty | untilEof => exact fun h => absurd h (by simp [startBody])

lemma awaits_afterLoop {s : Session} {p : HTTPParser} {m : HTTPMessage} {rest : Bytes}
    {content : Bool} {r : Option LoopEnd} (hst : p.messageParseState ≠ .parseContent)
    (htotal : p.bytesTotalRead < sizeMod) : (s.afterLoop p m rest content r).2.Awaits := by
  rcases r with _ | _ | _ | _
  · exact ⟨fun h => absurd h hst, mod_sizeMod_lt _⟩
  · exact ⟨fun h => absurd h hst, mod_sizeMod_lt _⟩
  · exact ⟨fun h => absurd h hst, htotal⟩
  · exact ⟨fun h => absurd h hst, htotal⟩

lemma awaits_headersPass {s : Session} (hst : s.parser.messageParseState = .parseHeaders)
    (htotal : s.parser.bytesTotalRead < sizeMod) : s.headersPass.2.Awaits := by
  have hloop : s.parseHeaders.2.Awaits := awaits_afterLoop (by simp [hst]) htotal
  rw [headersPass]
  split_ifs
  · refine awaits_finishHeaderParsing ?_ hloop.total
    rw [parseHeaders, afterLoop_messageParseState]
    simp [hst]
  · exact hloop

/-- A pass of the loop leaves content missing unless it ends the message. -/
lemma awaits_parseRound {s : Session} (hs : s.Awaits) (hrc : s.parseRound.1 ≠ .yes) :
    s.parseRound.2.Awaits := by
  cases hst : s.parser.messageParseState with
  | parseStart =>
    rw [parseRound_eq_headersPass (Or.inl hst)]
    exact awaits_headersPass rfl hs.total
  | parseHeaders =>
    rw [parseRound_eq_headersPass (Or.inr hst)]
    exact awaits_headersPass rfl hs.total
  | parseChunks =>
    have hloop : s.parseChunks.2.Awaits := awaits_afterLoop (by simp [hst]) hs.total
    rw [parseRound]
    simp only [hst]
    split_ifs
    · exact ⟨hloop.remaining, hloop.total⟩
    · exact hloop
  | parseContent =>
    rw [parseRound] at hrc ⊢
    simp only [hst] at hrc ⊢
    rw [consumeContent] at hrc ⊢
    by_cases hnone : s.parser.bytesContentRemaining = 0
    · rw [if_pos hnone] at hrc
      exact absurd rfl hrc
    · rw [if_neg hnone] at hrc ⊢
      by_cases henough : s.parser.readBuf.length ≥ s.parser.bytesContentRemaining
      · exact absurd (if_pos henough) hrc
      · refine ⟨fun _ => ?_, mod_sizeMod_lt _⟩
        show 0 < s.parser.bytesContentRemaining -
          min s.parser.readBuf.length s.parser.bytesContentRemaining
        omega
  | parseContentNoLength =>
    rw [parseRound]
    simp only [hst]
    exact ⟨fun h => absurd (hst.symm.trans h) (by simp), mod_sizeMod_lt _⟩
  | parseEnd =>
    rw [parseRound]
    simp only [hst]
    exact hs

lemma awaits_conclude {rc : Tribool} {s : Session} (hs : rc ≠ .yes → s.Awaits)
    (htotal : s.parser.bytesTotalRead < sizeMod) : (conclude rc s).2.Awaits := by
  cases rc with
  | yes => exact ⟨fun h => absurd h (by simp [conclude]), htotal⟩
  | no => exact ⟨(hs (by simp)).remaining, htotal⟩
  | indeterminate => exact hs (by simp)

lemma awaits_markData {s : Session} (hs : s.Awaits) : s.markData.Awaits := by
  rw [markData]
  split_ifs
  · exact ⟨hs.remaining, hs.total⟩
  · exact hs

/-- The loop of `parse` adds up what its passes take. -/
lemma took_parseLoop (n total : ℕ) {s : Session} (hs : s.Awaits)
    (hrc : (parseLoop n total s).1 ≠ .no) :
    ∃ k, (parseLoop n total s).2.1 = total + k ∧ s.Took k (parseLoop n total s).2.2 := by
  have hself : ∀ s : Session, s.Awaits → s.Took 0 s := fun s hs =>
    ⟨⟨[], rfl, rfl⟩, (Nat.mod_eq_of_lt hs.total).symm⟩
  induction n generalizing total s with
  | zero => exact ⟨0, rfl, hself s hs⟩
  | succ n ih =>
    rw [parseLoop] at hrc ⊢
    dsimp only at hrc ⊢
    by_cases hend : s.parser.messageParseState = .parseEnd
    · have hround : s.parseRound = (.yes, s) := by
        rw [parseRound]
        simp only [hend]
      rw [hround, if_neg (by simp), if_pos hend]
      exact ⟨0, rfl, hself s hs⟩
    · rw [if_neg hend] at hrc ⊢
      by_cases hagain : s.parseRound.1 = .indeterminate ∧ (! s.parseRound.2.parser.eof) = true
      · rw [if_pos hagain] at hrc ⊢
        obtain ⟨k, htotal, htook⟩ := ih _ (awaits_parseRound hs (by simp [hagain.1])) hrc
        exact ⟨s.parseRound.2.parser.bytesLastRead + k, by rw [htotal, Nat.add_assoc],
          (took_parseRound hs hend (by simp [hagain.1])).trans htook⟩
      · rw [if_neg hagain] at hrc ⊢
        exact ⟨_, rfl, took_parseRound hs hend hrc⟩

lemma awaits_parseLoop (n total : ℕ) {s : Session} (hs : s.Awaits)
    (hrc : (parseLoop n total s).1 ≠ .yes) : (parseLoop n total s).2.2.Awaits := by
  induction n generalizing total s with
  | zero => exact hs
  | succ n ih =>
    rw [parseLoop] at hrc ⊢
    dsimp only at hrc ⊢
    by_cases hagain : s.parseRound.1 = .indeterminate ∧ (! s.parseRound.2.parser.eof) = true
    · rw [if_pos hagain] at hrc ⊢
      exact ih _ (awaits_parseRound hs (by simp [hagain.1])) hrc
    · rw [if_neg hagain] at hrc ⊢
      exact awaits_parseRound hs hrc

/-- A call that does not fail takes `gcount` bytes. -/
lemma took_parse {s : Session} (hs : s.Awaits) (hrc : s.parse.1 ≠ .no) :
    s.Took s.parse.2.parser.bytesLastRead s.parse.2 := by
  have hmark := parser_markData s
  rw [parse] at hrc ⊢
  rcases hloop : parseLoop maxRounds 0 s.markData with ⟨rc, total, t⟩
  rw [hloop] at hrc
  have hrc' : rc ≠ .no := fun h => hrc (by rw [h]; rfl)
  obtain ⟨k, htotal, htook⟩ := took_parseLoop maxRounds 0 (awaits_markData hs)
    (by rw [hloop]; exact hrc')
  rw [hloop, Nat.zero_add] at htotal
  rw [hloop] at htook
  subst htotal
  cases rc with
  | yes => exact htook.congr (congrArg _ hmark.symm) (congrArg _ hmark.symm) rfl rfl
  | indeterminate => exact htook.congr (congrArg _ hmark.symm) (congrArg _ hmark.symm) rfl rfl
  | no => exact absurd rfl hrc'

lemma awaits_parse {s : Session} (hs : s.Awaits) : s.parse.2.Awaits := by
  have hloop := awaits_parseLoop maxRounds 0 (awaits_markData hs)
  have htook := took_parseLoop maxRounds 0 (awaits_markData hs)
  rw [parse]
  rcases hx : parseLoop maxRounds 0 s.markData with ⟨rc, total, t⟩
  rw [hx] at hloop htook
  have hconclude : (conclude rc t).2.Awaits := by
    refine awaits_conclude hloop ?_
    by_cases hrc : rc = .yes
    · obtain ⟨k, -, htook⟩ := htook (by simp [hrc])
      rw [htook.total]
      exact mod_sizeMod_lt _
    · exact (hloop hrc).total
  exact ⟨hconclude.remaining, hconclude.total⟩

lemma awaits_parseMissingData {s : Session} (hs : s.Awaits) (len : ℕ) :
    (s.parseMissingData len).2.Awaits := by
  have hround : ∀ s : Session, s.Awaits →
      ((s.missingRound len).1 ≠ .yes → (s.missingRound len).2.Awaits) ∧
        (s.missingRound len).2.parser.bytesTotalRead < sizeMod := by
    intro s hs
    rw [missingRound]
    cases hst : s.parser.messageParseState with
    | parseStart | parseHeaders => exact ⟨fun _ => ⟨hs.remaining, hs.total⟩, hs.total⟩
    | parseChunks =>
      dsimp only
      split_ifs
      · exact ⟨fun _ => ⟨fun h => absurd (hst.symm.trans h) (by simp), mod_sizeMod_lt _⟩, mod_sizeMod_lt _⟩
      · exact ⟨fun _ => ⟨fun h => absurd (hst.symm.trans h) (by simp), mod_sizeMod_lt _⟩, mod_sizeMod_lt _⟩
      · exact ⟨fun _ => ⟨hs.remaining, hs.total⟩, hs.total⟩
    | parseContent =>
      dsimp only
      by_cases hnone : s.parser.bytesContentRemaining = 0
      · rw [if_pos hnone]
        exact ⟨fun _ => hs, hs.total⟩
      · rw [if_neg hnone]
        by_cases hlt : s.parser.bytesContentRemaining < len
        · rw [if_pos hlt]
          exact ⟨fun _ => ⟨hs.remaining, hs.total⟩, hs.total⟩
        · rw [if_neg hlt]
          refine ⟨fun hrc => ⟨fun _ => ?_, mod_sizeMod_lt _⟩, mod_sizeMod_lt _⟩
          refine Nat.pos_of_ne_zero fun hzero => hrc ?_
          exact if_pos hzero
    | parseContentNoLength =>
      exact ⟨fun _ => ⟨fun h => absurd (hst.symm.trans h) (by simp), mod_sizeMod_lt _⟩, mod_sizeMod_lt _⟩
    | parseEnd => exact ⟨fun _ => hs, hs.total⟩
  rw [parseMissingData]
  obtain ⟨hawaits, htotal⟩ := hround { s with msg := { s.msg with hasMissingPackets := true } }
    ⟨hs.remaining, hs.total⟩
  exact awaits_conclude hawaits htotal

/-! ### The states of a parser -/

/-- The sessions that a user of a parser can come to, whatever calls are made, whatever messages
are handed over and however the parser is set up in between.  A parser is not asked to skip the
headers while it is reading content. -/
inductive Reachable : Session → Prop where
  | new (isRequest : Bool) (maxContentLength : ℕ) (parseHeadersOnly saveRawHeaders : Bool)
      (m : HTTPMessage) (ec : ErrorCode) :
      Reachable (newSession isRequest maxContentLength parseHeadersOnly saveRawHeaders m ec)
  | call {s : Session} (c : Call) (h : Reachable s) : Reachable (s.call c).2
  | reset {s : Session} (h : Reachable s) : Reachable { s with parser := s.parser.reset }
  | setUp {s : Session} (maxContentLength : ℕ) (parseHeadersOnly saveRawHeaders : Bool)
      (h : Reachable s) :
      Reachable { s with parser := { s.parser with
        maxContentLength := maxContentLength
        parseHeadersOnly := parseHeadersOnly
        saveRawHeaders := saveRawHeaders } }
  | handOver {s : Session} (m : HTTPMessage) (ec : ErrorCode) (h : Reachable s) :
      Reachable { s with msg := m, ec := ec }
  | skipHeaderParsing {s : Session} (hst : s.parser.messageParseState ≠ .parseContent)
      (h : Reachable s) : Reachable { s.finishHeaderParsing.2 with ec := s.ec }

lemma Reachable.awaits {s : Session} (h : s.Reachable) : s.Awaits := by
  have hzero : 0 < sizeMod := by decide
  induction h with
  | new => exact ⟨fun h => absurd h (by simp [newSession, HTTPParser.new]), hzero⟩
  | call c h ih =>
    cases c with
    | setReadBuffer w => exact ⟨ih.remaining, ih.total⟩
    | parse => exact awaits_parse ih
    | parseMissingData len => exact awaits_parseMissingData ih len
    | checkPrematureEOF =>
      simp only [Session.call, checkPrematureEOF]
      split_ifs
      · exact ih
      · exact ⟨fun h => absurd h (by simp), ih.total⟩
  | reset h ih => exact ⟨fun h => absurd h (by simp [HTTPParser.reset]), hzero⟩
  | setUp max headersOnly saveRaw h ih => exact ⟨ih.remaining, ih.total⟩
  | handOver m ec h ih => exact ⟨ih.remaining, ih.total⟩
  | skipHeaderParsing hst h ih =>
    have hskip := awaits_finishHeaderParsing hst ih.total
    exact ⟨hskip.remaining, hskip.total⟩

/-! ### Progress -/

/-- The outcomes of `parse` on one buffer after the other. -/
def parseEach : Session → List Bytes → List (Tribool × Session)
  | _, [] => []
  | s, w :: ws => (s.setReadBuffer w).parse :: parseEach (s.setReadBuffer w).parse.2 ws

/-- `gcount` behind a call. -/
def gcount (x : Tribool × Session) : ℕ := x.2.parser.bytesLastRead

/-- The total behind the last of some calls. -/
def totalBehind (s : Session) (xs : List (Tribool × Session)) : ℕ :=
  match xs.getLast? with
  | some x => x.2.parser.bytesTotalRead
  | none => s.parser.bytesTotalRead

lemma total_parseEach {s : Session} (hs : s.Awaits) {ws : List Bytes}
    (hrc : ∀ x ∈ s.parseEach ws, x.1 ≠ .no) :
    s.totalBehind (s.parseEach ws) =
      (s.parser.bytesTotalRead + ((s.parseEach ws).map gcount).sum) % sizeMod := by
  induction ws generalizing s with
  | nil => exact (Nat.mod_eq_of_lt hs.total).symm
  | cons w ws ih =>
    have hbuf : (s.setReadBuffer w).Awaits := ⟨hs.remaining, hs.total⟩
    have hfirst := took_parse hbuf (hrc _ List.mem_cons_self)
    have hrest := ih (awaits_parse hbuf) fun x hx => hrc x (List.mem_cons_of_mem _ hx)
    have hlast : s.totalBehind (s.parseEach (w :: ws)) =
        (s.setReadBuffer w).parse.2.totalBehind ((s.setReadBuffer w).parse.2.parseEach ws) := by
      rw [parseEach, totalBehind, totalBehind, List.getLast?_cons]
      cases ((s.setReadBuffer w).parse.2.parseEach ws).getLast? <;> rfl
    rw [hlast, hrest, hfirst.total, parseEach, List.map_cons, List.sum_cons, Nat.mod_add_mod,
      Nat.add_assoc]
    rfl

/-- From every state of a parser, `parse` ends on every buffer, takes all of it if it comes to no
result, and tells with `gcount` how many bytes it has taken; calls that do not fail add up their
counts in the total. -/
theorem parse_takes_and_counts {s : Session} (hs : s.Reachable) :
    (∀ w : Bytes, w ≠ [] →
      (∀ n ≥ maxRounds, parseLoop n 0 (s.setReadBuffer w).markData =
        parseLoop maxRounds 0 (s.setReadBuffer w).markData) ∧
      ((s.setReadBuffer w).parse.1 = .indeterminate →
        (s.setReadBuffer w).parse.2.parser.readBuf = []) ∧
      ((s.setReadBuffer w).parse.1 ≠ .no → ∃ v,
        w = v ++ (s.setReadBuffer w).parse.2.parser.readBuf ∧
          gcount (s.setReadBuffer w).parse = v.length)) ∧
    ∀ ws : List Bytes, (∀ w ∈ ws, w ≠ []) → (∀ x ∈ s.parseEach ws, x.1 ≠ .no) →
      s.totalBehind (s.parseEach ws) =
        (s.parser.bytesTotalRead + ((s.parseEach ws).map gcount).sum) % sizeMod := by
  refine ⟨fun w _ => ⟨fun n hn => ?_, fun h => ?_, fun h => ?_⟩, fun ws _ hrc =>
    total_parseEach hs.awaits hrc⟩
  · obtain ⟨k, rfl⟩ := Nat.exists_eq_add_of_le hn
    rw [Nat.add_comm]
    exact (parseLoop_ends k 0 _).1
  · have hend := (parseLoop_ends 0 0 (s.setReadBuffer w).markData).2
    rw [parse] at h ⊢
    rcases hloop : parseLoop maxRounds 0 (s.setReadBuffer w).markData with ⟨rc, total, t⟩
    rw [hloop] at h hend
    cases rc with
    | indeterminate => exact hend rfl
    | yes | no => cases h
  · obtain ⟨⟨v, hv, hlen⟩, -⟩ := took_parse (s := s.setReadBuffer w)
      ⟨hs.awaits.remaining, hs.awaits.total⟩ h
    exact ⟨v, hv, hlen.symm⟩

/-- A request in two buffers, the second of which goes on behind the request. -/
theorem parse_takes_and_counts_request :
    (newSession true 100 false false (HTTPMessage.newRequest []) .success).totalBehind
        ((newSession true 100 false false (HTTPMessage.newRequest []) .success).parseEach
          [ascii "GET / HT", ascii "TP/1.1\r\n\r\nGET"]) =
      (0 + (((newSession true 100 false false (HTTPMessage.newRequest []) .success).parseEach
        [ascii "GET / HT", ascii "TP/1.1\r\n\r\nGET"]).map gcount).sum) % sizeMod :=
  (parse_takes_and_counts (.new true 100 false false (HTTPMessage.newRequest []) .success)).2
    [ascii "GET / HT", ascii "TP/1.1\r\n\r\nGET"] (by decide) (by decide +kernel)

end Session

end PionCore.Net
