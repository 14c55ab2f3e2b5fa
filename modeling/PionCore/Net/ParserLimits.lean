/-
# The limits of the parser

The words that the header machine collects are never longer than the limits, in whatever order the
parser is called and reset.  A byte is appended without a test to the value of a header only, behind
its name, where the value is empty.
-/
import PionCore.Net.ParserCalls

namespace PionCore.Net

open PionCore.Lib

namespace HeaderMachine

/-- The words that were collected are within their limits. -/
structure WithinLimits (h : HeaderMachine) : Prop where
  method : h.method.length ≤ methodMax
  resource : h.resource.length ≤ resourceMax
  queryString : h.queryString.length ≤ queryStringMax
  statusMessage : h.statusMessage.length ≤ statusMessageMax
  headerName : h.headerName.length ≤ headerNameMax
  headerValue : h.headerValue.length ≤ headerValueMax

/-- The invariant: in front of the value of a header nothing of it has been collected yet. -/
structure Bounded (h : HeaderMachine) : Prop extends h.WithinLimits where
  noValue : h.headersParseState = .parseSpaceBeforeHeaderValue → h.headerValue = []

variable {h : HeaderMachine} {m : HTTPMessage} {c : Byte} {t : HeaderMachine × HTTPMessage}
  {st : HeadersParseState} {isRequest : Bool}

lemma length_append_le {s : Bytes} {max : ℕ} (hlt : ¬ s.length ≥ max) :
    (s ++ [c]).length ≤ max := by
  rw [List.length_append, List.length_singleton]
  omega

lemma Bounded.goto (hb : h.Bounded) (hst : st ≠ .parseSpaceBeforeHeaderValue) :
    Bounded { h with headersParseState := st } :=
  ⟨⟨hb.method, hb.resource, hb.queryString, hb.statusMessage, hb.headerName, hb.headerValue⟩,
    fun heq => absurd heq hst⟩

lemma Bounded.nameStart (hb : h.Bounded) (hnext : parseHeaderNameStart h m c = .next t) :
    t.1.Bounded := by
  rw [parseHeaderNameStart] at hnext
  split_ifs at hnext
  · cases hnext
    exact hb.goto (by decide)
  · cases hnext
    have hone : [c].length ≤ headerNameMax := by
      rw [List.length_singleton]
      decide
    exact ⟨⟨hb.method, hb.resource, hb.queryString, hb.statusMessage, hone, hb.headerValue⟩,
      fun heq => by cases heq⟩

lemma Bounded.httpLetter {letter : Byte} (hb : h.Bounded)
    (hst : st ≠ .parseSpaceBeforeHeaderValue)
    (hnext : parseHttpLetter h m c letter st = .next t) : t.1.Bounded := by
  rw [parseHttpLetter] at hnext
  split_ifs at hnext
  cases hnext
  exact hb.goto hst

/-- A byte that is consumed keeps the invariant. -/
lemma Bounded.next (hb : h.Bounded) (hnext : parseHeadersSwitch isRequest h m c = .next t) :
    t.1.Bounded := by
  obtain ⟨st, code, message, method, resource, query, raw, name, value⟩ := h
  obtain ⟨⟨hmethod, hresource, hquery, hmessage, hname, hvalue⟩, hnone⟩ := id hb
  cases st <;> simp only [parseHeadersSwitch] at hnext
  case parseMethodStart =>
    split_ifs at hnext
    · cases hnext
      have hone : [c].length ≤ methodMax := by
        rw [List.length_singleton]
        decide
      exact ⟨⟨hone, hresource, hquery, hmessage, hname, hvalue⟩, fun heq => by cases heq⟩
    · cases hnext
      exact hb
  case parseMethod =>
    split_ifs at hnext with hblank hchar hsize
    · cases hnext
      exact ⟨⟨hmethod, Nat.zero_le _, hquery, hmessage, hname, hvalue⟩, fun heq => by cases heq⟩
    · cases hnext
      exact ⟨⟨length_append_le hsize, hresource, hquery, hmessage, hname, hvalue⟩,
        fun heq => by cases heq⟩
  case parseUriStem =>
    split_ifs at hnext with hblank hquestion hcr hlf hchar hsize
    · cases hnext
      exact hb.goto (by decide)
    · cases hnext
      exact ⟨⟨hmethod, hresource, Nat.zero_le _, hmessage, hname, hvalue⟩, fun heq => by cases heq⟩
    · cases hnext
      exact hb.goto (by decide)
    · cases hnext
      exact hb.goto (by decide)
    · cases hnext
      exact ⟨⟨hmethod, length_append_le hsize, hquery, hmessage, hname, hvalue⟩,
        fun heq => by cases heq⟩
  case parseUriQuery =>
    split_ifs at hnext with hblank hchar hsize
    · cases hnext
      exact hb.goto (by decide)
    · cases hnext
      exact ⟨⟨hmethod, hresource, length_append_le hsize, hmessage, hname, hvalue⟩,
        fun heq => by cases heq⟩
  case parseHttpVersionH =>
    split_ifs at hnext
    · cases hnext
      exact hb.goto (by decide)
    · exact hb.httpLetter (by decide) hnext
  case parseHttpVersionT1 => exact hb.httpLetter (by decide) hnext
  case parseHttpVersionT2 => exact hb.httpLetter (by decide) hnext
  case parseHttpVersionP => exact hb.httpLetter (by decide) hnext
  case parseHttpVersionSlash => exact hb.httpLetter (by decide) hnext
  case parseHttpVersionMajorStart =>
    split_ifs at hnext
    cases hnext
    exact hb.goto (by decide)
  case parseHttpVersionMajor =>
    split_ifs at hnext
    · cases hnext
      exact hb.goto (by decide)
    · cases hnext
      exact hb
  case parseHttpVersionMinorStart =>
    split_ifs at hnext
    cases hnext
    exact hb.goto (by decide)
  case parseHttpVersionMinor =>
    split_ifs at hnext <;> cases hnext
    · exact hb.goto (by decide)
    · exact hb
    · exact hb.goto (by decide)
    · exact hb.goto (by decide)
    · exact hb
  case parseStatusCodeStart =>
    split_ifs at hnext
    cases hnext
    exact ⟨⟨hmethod, hresource, hquery, hmessage, hname, hvalue⟩, fun heq => by cases heq⟩
  -- behind the status code the message is empty, whatever comes
  case parseStatusCode =>
    have hempty : ∀ st, st ≠ .parseSpaceBeforeHeaderValue →
        Bounded ⟨st, code, [], method, resource, query, raw, name, value⟩ := fun st hst =>
      ⟨⟨hmethod, hresource, hquery, Nat.zero_le _, hname, hvalue⟩, fun heq => absurd heq hst⟩
    split_ifs at hnext <;> cases hnext
    · exact hempty _ (by decide)
    · exact ⟨⟨hmethod, hresource, hquery, hmessage, hname, hvalue⟩, fun heq => by cases heq⟩
    · exact hempty _ (by decide)
    · exact hempty _ (by decide)
  case parseStatusMessage =>
    split_ifs at hnext with hcr hlf hchar hsize <;> cases hnext
    · exact hb.goto (by decide)
    · exact hb.goto (by decide)
    · exact ⟨⟨hmethod, hresource, hquery, length_append_le hsize, hname, hvalue⟩,
        fun heq => by cases heq⟩
  case parseExpectingNewline =>
    split_ifs at hnext
    · cases hnext
      exact hb.goto (by decide)
    · exact hb.nameStart hnext
  case parseExpectingCr =>
    split_ifs at hnext
    · cases hnext
      exact hb.goto (by decide)
    · exact hb.nameStart hnext
  case parseHeaderWhitespace =>
    split_ifs at hnext <;> cases hnext
    · exact hb.goto (by decide)
    · exact hb.goto (by decide)
    · exact hb
  case parseHeaderStart =>
    split_ifs at hnext
    · cases hnext
      exact hb.goto (by decide)
    · cases hnext
      exact hb.goto (by decide)
    · exact hb.nameStart hnext
  case parseHeaderName =>
    split_ifs at hnext with hcolon hchar hsize <;> cases hnext
    · exact ⟨⟨hmethod, hresource, hquery, hmessage, hname, Nat.zero_le _⟩, fun _ => rfl⟩
    · exact ⟨⟨hmethod, hresource, hquery, hmessage, length_append_le hsize, hvalue⟩,
        fun heq => by cases heq⟩
  -- the byte is appended without a test, to a value that is empty
  case parseSpaceBeforeHeaderValue =>
    obtain rfl : value = [] := hnone rfl
    have hone : ([] ++ [c]).length ≤ headerValueMax := by
      rw [List.nil_append, List.length_singleton]
      decide
    split_ifs at hnext <;> cases hnext
    · exact hb.goto (by decide)
    · exact hb.goto (by decide)
    · exact hb.goto (by decide)
    · exact ⟨⟨hmethod, hresource, hquery, hmessage, hname, hone⟩, fun heq => by cases heq⟩
  case parseHeaderValue =>
    split_ifs at hnext with hcr hlf hchar hsize <;> cases hnext
    · exact hb.goto (by decide)
    · exact hb.goto (by decide)
    · exact ⟨⟨hmethod, hresource, hquery, hmessage, hname, length_append_le hsize⟩,
        fun heq => by cases heq⟩
  case parseExpectingFinalNewline => cases hnext
  case parseExpectingFinalCr => cases hnext

lemma Bounded.saveRawHeader (hb : h.Bounded) (saveRaw : Bool) (c : Byte) :
    (saveRawHeader saveRaw h c).Bounded := by
  rw [Net.saveRawHeader]
  split_ifs
  · exact ⟨⟨hb.method, hb.resource, hb.queryString, hb.statusMessage, hb.headerName,
      hb.headerValue⟩, hb.noValue⟩
  · exact hb

/-- The loop over the headers keeps the invariant, wherever it ends. -/
lemma Bounded.scan (hb : h.Bounded) (saveRaw : Bool) (m : HTTPMessage) (w : Bytes) :
    (scan (parseHeadersChar isRequest saveRaw) (h, m) w).state.1.Bounded := by
  refine scan_invariant (P := fun s : HeaderMachine × HTTPMessage => s.1.Bounded) ?_ ?_ (h, m) w hb
  · intro s c t hs hnext
    exact (hs.saveRawHeader saveRaw c).next hnext
  · intro s c b r t hs hstop
    rw [parseHeadersSwitch_stop hstop]
    exact hs.saveRawHeader saveRaw c

end HeaderMachine

/-! ### Calls and resets -/

/-- What a user does with a parser: a call with some message and error code, or a reset. -/
inductive ParserUse where
  | call (c : Call) (msg : HTTPMessage) (ec : ErrorCode)
  | reset

namespace Session

def use (s : Session) : ParserUse → Session
  | .call c msg ec => ({ s with msg := msg, ec := ec }.call c).2
  | .reset => { s with parser := s.parser.reset }

variable {s : Session}

lemma header_afterLoop (s : Session) (p : HTTPParser) (m : HTTPMessage) (rest : Bytes)
    (content : Bool) (r : Option LoopEnd) :
    (s.afterLoop p m rest content r).2.parser.header = p.header := by
  rcases r with _ | _ | _ | _ <;> rfl

lemma header_finishHeaderParsing (s : Session) :
    s.finishHeaderParsing.2.parser.header = s.parser.header := by
  rw [finishHeaderParsing_eq]
  cases framing s.parser.isRequest s.headed <;> rfl

lemma header_consumeContent (s : Session) : s.consumeContent.2.parser.header = s.parser.header := by
  rw [consumeContent]
  dsimp only
  split <;> rfl

lemma header_conclude (rc : Tribool) (s : Session) :
    (conclude rc s).2.parser.header = s.parser.header := by
  cases rc <;> rfl

lemma keepsBounds_parseHeaders (hb : s.parser.header.Bounded) :
    s.parseHeaders.2.parser.header.Bounded := by
  rw [parseHeaders, header_afterLoop]
  exact hb.scan s.parser.saveRawHeaders s.msg s.parser.readBuf

lemma keepsBounds_headersPass (hb : s.parser.header.Bounded) :
    s.headersPass.2.parser.header.Bounded := by
  rw [headersPass]
  split_ifs
  · rw [header_finishHeaderParsing]
    exact keepsBounds_parseHeaders hb
  · exact keepsBounds_parseHeaders hb

lemma keepsBounds_parseRound (hb : s.parser.header.Bounded) :
    s.parseRound.2.parser.header.Bounded := by
  have hheaders : (s.atHeaders (s.parser.header, s.msg)).headersPass.2.parser.header.Bounded :=
    keepsBounds_headersPass hb
  cases hst : s.parser.messageParseState with
  | parseStart =>
    rw [parseRound_eq_headersPass (Or.inl hst)]
    exact hheaders
  | parseHeaders =>
    rw [parseRound_eq_headersPass (Or.inr hst)]
    exact hheaders
  | parseChunks =>
    have hchunks : s.parseChunks.2.parser.header = s.parser.header := header_afterLoop s _ _ _ _ _
    rw [parseRound]
    simp only [hst]
    split_ifs
    · exact hchunks ▸ hb
    · exact hchunks ▸ hb
  | parseContent =>
    rw [parseRound]
    simp only [hst]
    rw [header_consumeContent]
    exact hb
  | parseContentNoLength =>
    rw [parseRound]
    simp only [hst]
    exact hb
  | parseEnd =>
    rw [parseRound]
    simp only [hst]
    exact hb

lemma keepsBounds_parseLoop (n total : ℕ) (hb : s.parser.header.Bounded) :
    (parseLoop n total s).2.2.parser.header.Bounded := by
  induction n generalizing total s with
  | zero => exact hb
  | succ n ih =>
    have hround := keepsBounds_parseRound hb
    simp only [parseLoop]
    by_cases h : s.parseRound.1 = .indeterminate ∧ (! s.parseRound.2.parser.eof) = true
    · rw [if_pos h]
      exact ih _ hround
    · rw [if_neg h]
      exact hround

lemma header_missingRound (s : Session) (len : ℕ) :
    (s.missingRound len).2.parser.header = s.parser.header := by
  rw [missingRound]
  dsimp only
  split
  · rfl
  · rfl
  · split_ifs <;> rfl
  · split_ifs <;> rfl
  · rfl
  · rfl

lemma keepsBounds_call (hb : s.parser.header.Bounded) (c : Call) :
    (s.call c).2.parser.header.Bounded := by
  cases c with
  | setReadBuffer w => exact hb
  | parse =>
    have hmark : s.markData.parser = s.parser := by
      rw [markData]
      split_ifs <;> rfl
    change (conclude _ (parseLoop maxRounds 0 s.markData).2.2).2.parser.header.Bounded
    rw [header_conclude]
    exact keepsBounds_parseLoop maxRounds 0 (hmark ▸ hb)
  | parseMissingData len =>
    change (conclude _ (missingRound _ len).2).2.parser.header.Bounded
    rw [header_conclude, header_missingRound]
    exact hb
  | checkPrematureEOF =>
    simp only [call, checkPrematureEOF]
    split_ifs <;> exact hb

/-- After a reset, the name and the value of a header are the only words that are left. -/
lemma bounded_reset (hb : s.parser.header.Bounded) : s.parser.reset.header.Bounded := by
  refine ⟨⟨Nat.zero_le _, Nat.zero_le _, Nat.zero_le _, Nat.zero_le _, hb.headerName,
    hb.headerValue⟩, fun heq => ?_⟩
  rw [HTTPParser.reset, initialHeadersState] at heq
  dsimp only at heq
  split_ifs at heq

lemma bounded_use (hb : s.parser.header.Bounded) (u : ParserUse) :
    (s.use u).parser.header.Bounded := by
  cases u with
  | call c msg ec => exact keepsBounds_call (s := { s with msg := msg, ec := ec }) hb c
  | reset => exact bounded_reset hb

lemma bounded_new (isRequest : Bool) (maxContentLength : ℕ) (headersOnly saveRaw : Bool) :
    (HTTPParser.new isRequest maxContentLength headersOnly saveRaw).header.Bounded := by
  refine ⟨⟨Nat.zero_le _, Nat.zero_le _, Nat.zero_le _, Nat.zero_le _, Nat.zero_le _,
    Nat.zero_le _⟩, fun _ => rfl⟩

/-- In every order of calls and resets, the words that the parser collects stay within their
limits. -/
theorem withinLimits_after (isRequest : Bool) (maxContentLength : ℕ) (headersOnly saveRaw : Bool)
    (msg : HTTPMessage) (ec : ErrorCode) (uses : List ParserUse) :
    (uses.foldl use ⟨HTTPParser.new isRequest maxContentLength headersOnly saveRaw, msg, ec⟩
      ).parser.header.WithinLimits := by
  have hrun : ∀ s : Session, s.parser.header.Bounded →
      (uses.foldl use s).parser.header.Bounded := by
    induction uses with
    | nil => exact fun s hb => hb
    | cons u uses ih => exact fun s hb => ih _ (bounded_use hb u)
  exact (hrun _ (bounded_new isRequest maxContentLength headersOnly saveRaw)).toWithinLimits

end Session

end PionCore.Net
