/-
# What a failed parse says

Every way in which `parse` and `parseMissingData` fail sets the error code of the caller, but for
one: a line of the header that begins with a blank and goes on with the characters of a token is
refused without an error.
-/
import PionCore.Net.ParserProgress

namespace PionCore.Net

open PionCore.Lib

/-- The state and the byte at which the header machine stops without an error. -/
def RefusesSilently (p : HeaderMachine) (c : Byte) : Prop :=
  p.headersParseState = .parseHeaderWhitespace ∧ c ≠ 9 ∧ c ≠ 32 ∧ c ≠ 13 ∧ c ≠ 10 ∧
    badTokenChar c = false

instance (p : HeaderMachine) (c : Byte) : Decidable (RefusesSilently p c) :=
  inferInstanceAs (Decidable (_ ∧ _ ∧ _ ∧ _ ∧ _ ∧ _))

lemma parseHeadersSwitch_silent {isRequest : Bool} {p : HeaderMachine} {m : HTTPMessage}
    {c : Byte} :
    (∃ b s, parseHeadersSwitch isRequest p m c = .stop b (.failed none) s) ↔
      RefusesSilently p c := by
  constructor
  · rintro ⟨b, s, h⟩
    unfold parseHeadersSwitch parseHeaderNameStart parseHttpLetter at h
    dsimp only at h
    split at h <;> (try split_ifs at h) <;> cases h
    rename_i hst h13 h10 hblank hbad
    exact ⟨hst, hblank.1, hblank.2, h13, h10, by simpa using hbad⟩
  · rintro ⟨hst, h9, h32, h13, h10, hbad⟩
    refine ⟨false, (p, m), ?_⟩
    simp [parseHeadersSwitch, hst, h9, h32, h13, h10, hbad]

lemma parseChunksChar_stop_iff {maxContentLength : ℕ} {s s' : ChunkMachine × Bytes} {c : Byte}
    {b : Bool} {r : LoopEnd} (h : parseChunksChar maxContentLength s c = .stop b r s') :
    r = .done ∨ r = .failed (some .chunkChar) := by
  unfold parseChunksChar parseExpected at h
  dsimp only at h
  split at h <;> (try split_ifs at h) <;> cases h <;> simp

namespace Session

/-- The header that is being read has a line that begins with a blank and goes on with a
character of a token, in the bytes that the parser is given. -/
def MeetsFoldedLine (s : Session) : Prop :=
  s.InHeaders ∧ ∃ u c v t, s.parser.readBuf = u ++ c :: v ∧
    scan (parseHeadersChar s.parser.isRequest s.parser.saveRawHeaders) (s.parser.header, s.msg) u =
      ⟨none, [], t⟩ ∧ RefusesSilently t.1 c

/-- A call that fails sets an error of the parser, and every other call leaves the code of the
caller alone. -/
def ExplainsFailure (ec : ErrorCode) (x : Tribool × Session) : Prop :=
  (x.1 = .no → ∃ ev, x.2.ec = .parser ev) ∧ (x.1 ≠ .no → x.2.ec = ec)

lemma explains_of_ne {ec : ErrorCode} {x : Tribool × Session} (hrc : x.1 ≠ .no)
    (h : x.2.ec = ec) : ExplainsFailure ec x := ⟨fun h => absurd h hrc, fun _ => h⟩

/-- The result of the loop over the headers that has no error. -/
lemma scan_parseHeaders_silent {isRequest saveRaw : Bool} {t : HeaderMachine × HTTPMessage}
    {w : Bytes} :
    (scan (parseHeadersChar isRequest saveRaw) t w).result = some (.failed none) ↔
      ∃ u c v t', w = u ++ c :: v ∧
        scan (parseHeadersChar isRequest saveRaw) t u = ⟨none, [], t'⟩ ∧
          RefusesSilently t'.1 c := by
  have hraw : ∀ (p : HeaderMachine) (c d : Byte),
      RefusesSilently (saveRawHeader saveRaw p d) c ↔ RefusesSilently p c := by
    intro p c d
    rw [saveRawHeader]
    split_ifs <;> rfl
  rw [scan_result_iff]
  constructor
  · rintro ⟨u, c, v, t', b, t'', hw, hu, hstop⟩
    exact ⟨u, c, v, t', hw, hu, (hraw _ _ _).1 (parseHeadersSwitch_silent.1 ⟨b, t'', hstop⟩)⟩
  · rintro ⟨u, c, v, t', hw, hu, hrefuses⟩
    obtain ⟨b, t'', hstop⟩ := parseHeadersSwitch_silent.2 ((hraw _ _ c).2 hrefuses)
    exact ⟨u, c, v, t', b, t'', hw, hu, hstop⟩

lemma explains_parseHeaders {s : Session}
    (h : (scan (parseHeadersChar s.parser.isRequest s.parser.saveRawHeaders)
      (s.parser.header, s.msg) s.parser.readBuf).result ≠ some (.failed none)) :
    ExplainsFailure s.ec s.parseHeaders := by
  rw [parseHeaders]
  rcases hr : (scan (parseHeadersChar s.parser.isRequest s.parser.saveRawHeaders)
    (s.parser.header, s.msg) s.parser.readBuf).result with _ | _ | _ | ev
  · exact explains_of_ne (by simp [afterLoop]) rfl
  · exact explains_of_ne (by simp [afterLoop]) rfl
  · exact absurd hr h
  · exact ⟨fun _ => ⟨ev, rfl⟩, fun h => absurd rfl h⟩

lemma explains_parseChunks (s : Session) : ExplainsFailure s.ec s.parseChunks := by
  rw [parseChunks]
  rcases hr : (scan (parseChunksChar s.parser.maxContentLength) (s.parser.chunk, s.msg.chunkCache)
    s.parser.readBuf).result with _ | _ | _ | ev
  · exact explains_of_ne (by simp [afterLoop]) rfl
  · exact explains_of_ne (by simp [afterLoop]) rfl
  · obtain ⟨u, c, v, t, b, t', -, -, hstop⟩ := scan_result_iff.1 hr
    rcases parseChunksChar_stop_iff hstop with h | h <;> cases h
  · exact ⟨fun _ => ⟨ev, rfl⟩, fun h => absurd rfl h⟩

lemma explains_finishHeaderParsing (s : Session) : ExplainsFailure s.ec s.finishHeaderParsing := by
  have hopen : s.bodyFollows ≠ .no := by
    rw [bodyFollows]
    split_ifs <;> simp
  rw [finishHeaderParsing_eq]
  cases framing s.parser.isRequest s.headed with
  | chunked | length | untilEof => exact explains_of_ne hopen rfl
  | empty => exact explains_of_ne (by simp [startBody]) rfl
  | invalidLength => exact ⟨fun _ => ⟨_, rfl⟩, fun h => absurd rfl h⟩

lemma explains_consumeContent (s : Session) : ExplainsFailure s.ec s.consumeContent := by
  rw [consumeContent]
  dsimp only
  by_cases hnone : s.parser.bytesContentRemaining = 0
  · rw [if_pos hnone]
    exact explains_of_ne (by simp) rfl
  · rw [if_neg hnone]
    refine explains_of_ne ?_ rfl
    dsimp only
    split_ifs <;> simp

lemma explains_headersPass {s : Session}
    (h : (scan (parseHeadersChar s.parser.isRequest s.parser.saveRawHeaders)
      (s.parser.header, s.msg) s.parser.readBuf).result ≠ some (.failed none)) :
    ExplainsFailure s.ec s.headersPass := by
  have hloop := explains_parseHeaders h
  rw [headersPass]
  split_ifs with hyes
  · rw [← hloop.2 (by simp [hyes])]
    exact explains_finishHeaderParsing _
  · exact hloop

/-- A pass over the loop sets an error where it fails, unless it meets a folded line. -/
lemma explains_parseRound {s : Session} (h : ¬ s.MeetsFoldedLine) :
    ExplainsFailure s.ec s.parseRound := by
  cases hst : s.parser.messageParseState with
  | parseStart =>
    rw [parseRound_eq_headersPass (Or.inl hst)]
    exact explains_headersPass fun hr => h ⟨Or.inl hst, scan_parseHeaders_silent.1 hr⟩
  | parseHeaders =>
    rw [parseRound_eq_headersPass (Or.inr hst)]
    exact explains_headersPass fun hr => h ⟨Or.inr hst, scan_parseHeaders_silent.1 hr⟩
  | parseChunks =>
    have hloop := explains_parseChunks s
    rw [parseRound]
    simp only [hst]
    split_ifs with hyes
    · exact explains_of_ne (by simp [hyes]) (hloop.2 (by simp [hyes]))
    · exact hloop
  | parseContent =>
    rw [parseRound]
    simp only [hst]
    exact explains_consumeContent s
  | parseContentNoLength | parseEnd =>
    rw [parseRound]
    simp only [hst]
    exact explains_of_ne (by simp) rfl

/-- A folded line ends the pass with no error. -/
lemma parseRound_folded {s : Session} (h : s.MeetsFoldedLine) :
    s.parseRound.1 = .no ∧ s.parseRound.2.ec = s.ec := by
  obtain ⟨hst, hfolded⟩ := h
  have hpass : ∀ s : Session, (scan (parseHeadersChar s.parser.isRequest
        s.parser.saveRawHeaders) (s.parser.header, s.msg) s.parser.readBuf).result =
          some (.failed none) → s.headersPass.1 = .no ∧ s.headersPass.2.ec = s.ec := by
    intro s h
    rw [headersPass, parseHeaders, h]
    exact ⟨rfl, rfl⟩
  rw [parseRound_eq_headersPass hst]
  exact hpass (s.atHeaders (s.parser.header, s.msg)) (scan_parseHeaders_silent.2 hfolded)

lemma explains_conclude {ec : ErrorCode} {rc : Tribool} {s : Session}
    (h : ExplainsFailure ec (rc, s)) : ExplainsFailure ec (conclude rc s) := by
  cases rc <;> exact h

lemma markData_ec (s : Session) : s.markData.ec = s.ec := by
  rw [markData]
  split_ifs <;> rfl

/-- The message's note of missing packets does not matter to the header machine. -/
lemma meetsFoldedLine_markData (s : Session) : s.markData.MeetsFoldedLine ↔ s.MeetsFoldedLine := by
  have hmsg : ∀ (p : HTTPParser) (m m' : HTTPMessage) (ec : ErrorCode),
      (Session.mk p m ec).MeetsFoldedLine → (Session.mk p m' ec).MeetsFoldedLine := by
    rintro p m m' ec ⟨hst, u, c, v, t, hbuf, hscan, hrefuses⟩
    have hsame : Prod.fst (p.header, m) = Prod.fst (p.header, m') := rfl
    have hview := (parseHeadersChar_respects_fst p.isRequest p.saveRawHeaders).scan hsame u
    rw [hscan] at hview
    rcases hx : scan (parseHeadersChar p.isRequest p.saveRawHeaders) (p.header, m') u with
      ⟨result, rest, t'⟩
    rw [hx] at hview
    obtain ⟨hresult, hrest, hstate⟩ := (Scanned.mk.injEq ..).mp hview
    subst hresult hrest
    exact ⟨hst, u, c, v, t', hbuf, hx, hstate ▸ hrefuses⟩
  rw [markData]
  split_ifs
  · exact ⟨hmsg _ _ _ _, hmsg _ _ _ _⟩
  · rfl

/-- Where a call of `parse` fails, it has set an error, unless it met a folded line. -/
lemma explains_parse {s : Session} (h : ¬ s.MeetsFoldedLine) : ExplainsFailure s.ec s.parse := by
  -- only the first pass can be one over the headers
  have hloop : ExplainsFailure s.ec ((parseLoop maxRounds 0 s.markData).1,
      (parseLoop maxRounds 0 s.markData).2.2) := by
    have hfirst := explains_parseRound (mt (meetsFoldedLine_markData s).1 h)
    rw [markData_ec] at hfirst
    rw [show maxRounds = 0 + 1 + 1 from rfl, parseLoop]
    dsimp only
    by_cases hagain : s.markData.parseRound.1 = .indeterminate ∧
        (! s.markData.parseRound.2.parser.eof) = true
    · have hbuf := hagain.2
      rw [Bool.not_eq_true', ← Bool.not_eq_true, eof_iff] at hbuf
      have hb := parseRound_again hagain.1 hbuf
      have hsecond : ExplainsFailure s.markData.parseRound.2.ec
          s.markData.parseRound.2.parseRound := by
        refine explains_parseRound fun hfolded => ?_
        rcases hfolded.1 with hst | hst <;> rcases hb with hst' | hst' | hst' <;>
          simp [hst] at hst'
      rw [if_pos hagain, parseLoop_body hb, ← hfirst.2 (by simp [hagain.1])]
      exact hsecond
    · rw [if_neg hagain]
      exact hfirst
  exact explains_conclude hloop

lemma parse_folded {s : Session} (h : s.MeetsFoldedLine) :
    s.parse.1 = .no ∧ s.parse.2.ec = s.ec := by
  obtain ⟨hrc, hec⟩ := parseRound_folded ((meetsFoldedLine_markData s).2 h)
  rw [parse, show maxRounds = 0 + 1 + 1 from rfl, parseLoop]
  dsimp only
  rw [if_neg (fun hagain => by simp [hrc] at hagain), hrc, ← s.markData_ec, ← hec]
  exact ⟨rfl, rfl⟩

lemma explains_parseMissingData (s : Session) (len : ℕ) :
    ExplainsFailure s.ec (s.parseMissingData len) := by
  have hround : ∀ s : Session, ExplainsFailure s.ec (s.missingRound len) := by
    intro s
    have hfail : ∀ ev, ExplainsFailure s.ec (.no, { s with ec := .parser ev }) := fun ev =>
      ⟨fun _ => ⟨ev, rfl⟩, fun h => absurd rfl h⟩
    rw [missingRound]
    cases s.parser.messageParseState with
    | parseStart | parseHeaders => exact hfail _
    | parseChunks =>
      dsimp only
      split_ifs
      · exact explains_of_ne (by simp) rfl
      · exact explains_of_ne (by simp) rfl
      · exact hfail _
    | parseContent =>
      dsimp only
      by_cases hnone : s.parser.bytesContentRemaining = 0
      · rw [if_pos hnone]
        exact explains_of_ne (by simp) rfl
      · rw [if_neg hnone]
        by_cases hlt : s.parser.bytesContentRemaining < len
        · rw [if_pos hlt]
          exact hfail _
        · rw [if_neg hlt]
          refine explains_of_ne ?_ rfl
          dsimp only
          split_ifs <;> simp
    | parseContentNoLength => exact explains_of_ne (by simp) rfl
    | parseEnd => exact explains_of_ne (by simp) rfl
  exact explains_conclude (hround { s with msg := { s.msg with hasMissingPackets := true } })

/-- In every state of a parser and for every buffer, whatever code the caller has passed in: the
calls say why they fail exactly if the header that is read has no folded line in the buffer. -/
theorem explains_iff (p : HTTPParser) (m : HTTPMessage) :
    (∀ ec : ErrorCode, ExplainsFailure ec (Session.mk p m ec).parse ∧
        ∀ len, ExplainsFailure ec ((Session.mk p m ec).parseMissingData len)) ↔
      ¬ (Session.mk p m .success).MeetsFoldedLine := by
  constructor
  · intro h hfolded
    obtain ⟨hrc, hec⟩ := parse_folded hfolded
    obtain ⟨ev, hev⟩ := (h .success).1.1 hrc
    rw [hec] at hev
    cases hev
  · intro h ec
    have hec : ¬ (Session.mk p m ec).MeetsFoldedLine := h
    exact ⟨explains_parse hec, fun len => explains_parseMissingData _ len⟩

/-- A request with a folded header is refused, and the error code is that of success. -/
theorem not_explains :
    ¬ ∀ (p : HTTPParser) (m : HTTPMessage) (ec : ErrorCode),
      ExplainsFailure ec (Session.mk p m ec).parse := by
  intro h
  have hsession := (h ((HTTPParser.new true 100 false false).setReadBuffer
    (ascii "GET / HTTP/1.1\r\nA: b\r\n c\r\n\r\n")) (HTTPMessage.newRequest []) .success).1
  have hfails : (Session.mk ((HTTPParser.new true 100 false false).setReadBuffer
      (ascii "GET / HTTP/1.1\r\nA: b\r\n c\r\n\r\n")) (HTTPMessage.newRequest [])
        .success).parse.1 = .no ∧ (Session.mk ((HTTPParser.new true 100 false false).setReadBuffer
      (ascii "GET / HTTP/1.1\r\nA: b\r\n c\r\n\r\n")) (HTTPMessage.newRequest [])
        .success).parse.2.ec = .success := by decide +kernel
  obtain ⟨ev, hev⟩ := hsession hfails.1
  rw [hfails.2] at hev
  cases hev

end Session

end PionCore.Net
