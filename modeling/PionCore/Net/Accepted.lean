/-
# What the parser accepts

Every message that the parser accepts has a first line and headers that it can read again:
their words are collected byte by byte, and each byte and each length is tested.
-/
import PionCore.Net.ContentBounds
import PionCore.Net.HTTPTransfer

namespace PionCore.Net

open PionCore.Lib

/-! ### The header machine -/

/-- The words that the header machine has collected. -/
structure HeaderMachine.Sane (h : HeaderMachine) : Prop where
  method : (∀ c ∈ h.method, badTokenChar c = false) ∧ h.method.length ≤ methodMax
  resource : IsResource h.resource ∧ h.resource.length ≤ resourceMax
  query : IsQuery h.queryString ∧ h.queryString.length ≤ queryStringMax
  code : h.statusCode < uint16Mod
  message : IsText h.statusMessage ∧ h.statusMessage.length ≤ statusMessageMax
  name : (h.headersParseState = .parseHeaderName ∨
      h.headersParseState = .parseSpaceBeforeHeaderValue ∨
      h.headersParseState = .parseHeaderValue) →
    IsToken h.headerName ∧ h.headerName.length ≤ headerNameMax
  value : IsText h.headerValue ∧ h.headerValue.length ≤ headerValueMax
  noValue : h.headersParseState = .parseSpaceBeforeHeaderValue → h.headerValue = []

/-- A word keeps its property and its bound when a tested byte is added. -/
lemma append_ok {P : Byte → Prop} {s : Bytes} {c : Byte} {max : ℕ}
    (hs : (∀ d ∈ s, P d) ∧ s.length ≤ max) (hc : P c) (hlt : ¬ s.length ≥ max) :
    (∀ d ∈ s ++ [c], P d) ∧ (s ++ [c]).length ≤ max := by
  refine ⟨fun d hd => ?_, by rw [List.length_append, List.length_singleton]; omega⟩
  rcases List.mem_append.1 hd with hd | hd
  · exact hs.1 d hd
  · rwa [List.mem_singleton.1 hd]

lemma empty_ok {P : Byte → Prop} {max : ℕ} :
    (∀ d ∈ ([] : Bytes), P d) ∧ ([] : Bytes).length ≤ max := by simp

lemma text_of_token {c : Byte} (h : badTokenChar c = false) : isControl c = false := by
  simp only [badTokenChar, Bool.or_eq_false_iff] at h
  exact h.1.2

/-- What the messages in the course of a header satisfy. -/
structure HTTPMessage.HeadOk (m : HTTPMessage) : Prop where
  major : m.versionMajor < uint16Mod
  minor : m.versionMinor < uint16Mod
  headers : ∀ e ∈ m.headers, HeaderOk e

lemma headOk_version {m : HTTPMessage} (hm : m.HeadOk) (n : ℕ) :
    (m.setVersionMajor n).HeadOk ∧ (m.setVersionMinor n).HeadOk :=
  have hn : n % uint16Mod < uint16Mod := Nat.mod_lt n (by decide)
  ⟨⟨hn, hm.minor, hm.headers⟩, ⟨hm.major, hn, hm.headers⟩⟩

lemma headOk_addHeader {m : HTTPMessage} (hm : m.HeadOk) {k v : Bytes} (hkv : HeaderOk (k, v)) :
    (m.addHeader k v).HeadOk := by
  refine ⟨hm.major, hm.minor, fun e he => ?_⟩
  rcases List.mem_append.1 he with he | he
  · exact hm.headers e he
  · rwa [List.mem_singleton.1 he]

/-- In a state without a header at hand, only the words of the first line matter. -/
lemma HeaderMachine.Sane.goto {h : HeaderMachine} (hs : h.Sane) {st : HeadersParseState}
    (hst : ¬ (st = .parseHeaderName ∨ st = .parseSpaceBeforeHeaderValue ∨
      st = .parseHeaderValue)) : HeaderMachine.Sane { h with headersParseState := st } :=
  ⟨hs.method, hs.resource, hs.query, hs.code, hs.message, fun h => absurd h hst, hs.value,
    fun h => absurd (Or.inr (Or.inl h)) hst⟩

lemma sane_nameStart {h : HeaderMachine} {m : HTTPMessage} {c : Byte}
    {t : HeaderMachine × HTTPMessage} (hs : h.Sane) (hm : m.HeadOk)
    (hnext : parseHeaderNameStart h m c = .next t) : t.1.Sane ∧ t.2.HeadOk := by
  rw [parseHeaderNameStart] at hnext
  split_ifs at hnext with h1 h2
  · cases hnext
    exact ⟨hs.goto (by decide), hm⟩
  · cases hnext
    have htoken : IsToken [c] := ⟨by simp, by simpa using h2⟩
    exact ⟨⟨hs.method, hs.resource, hs.query, hs.code, hs.message,
      fun _ => ⟨htoken, by simp [headerNameMax]⟩, hs.value, by simp⟩, hm⟩

lemma sane_httpLetter {h : HeaderMachine} {m : HTTPMessage} {c letter : Byte}
    {st : HeadersParseState} {t : HeaderMachine × HTTPMessage} (hs : h.Sane) (hm : m.HeadOk)
    (hst : ¬ (st = .parseHeaderName ∨ st = .parseSpaceBeforeHeaderValue ∨ st = .parseHeaderValue))
    (hnext : parseHttpLetter h m c letter st = .next t) : t.1.Sane ∧ t.2.HeadOk := by
  rw [parseHttpLetter] at hnext
  split_ifs at hnext
  cases hnext
  exact ⟨hs.goto hst, hm⟩

/-- Every byte of the header that is consumed keeps the words sane. -/
lemma sane_next {isRequest : Bool} {h : HeaderMachine} {m : HTTPMessage} {c : Byte}
    {t : HeaderMachine × HTTPMessage} (hs : h.Sane) (hm : m.HeadOk)
    (hnext : parseHeadersSwitch isRequest h m c = .next t) : t.1.Sane ∧ t.2.HeadOk := by
  obtain ⟨st, code, message, method, resource, query, raw, name, value⟩ := h
  -- a first line without a version sets it to 0.0
  have hzero := (headOk_version (headOk_version hm 0).1 0).2
  cases st <;> simp only [parseHeadersSwitch] at hnext
  case parseMethodStart =>
    split_ifs at hnext with h1 h2
    · cases hnext
      exact ⟨⟨append_ok empty_ok (by simpa using h2) (by simp [methodMax]), hs.resource, hs.query,
        hs.code, hs.message, by simp, hs.value, by simp⟩, hm⟩
    · cases hnext
      exact ⟨hs, hm⟩
  case parseMethod =>
    split_ifs at hnext with h1 h2 h3
    · cases hnext
      exact ⟨⟨hs.method, empty_ok, hs.query, hs.code, hs.message, by simp, hs.value, by simp⟩, hm⟩
    · cases hnext
      exact ⟨⟨append_ok hs.method (by simpa using h2) h3, hs.resource, hs.query, hs.code,
        hs.message, by simp, hs.value, by simp⟩, hm⟩
  case parseUriStem =>
    split_ifs at hnext with h1 h2 h3 h4 h5 h6
    · cases hnext
      exact ⟨hs.goto (by decide), hm⟩
    · cases hnext
      exact ⟨⟨hs.method, hs.resource, empty_ok, hs.code, hs.message, by simp, hs.value, by simp⟩,
        hm⟩
    · cases hnext
      exact ⟨hs.goto (by decide), hzero⟩
    · cases hnext
      exact ⟨hs.goto (by decide), hzero⟩
    · cases hnext
      exact ⟨⟨hs.method, append_ok hs.resource ⟨by simpa using h5, h1, h2⟩ h6, hs.query, hs.code,
        hs.message, by simp, hs.value, by simp⟩, hm⟩
  case parseUriQuery =>
    split_ifs at hnext with h1 h2 h3
    · cases hnext
      exact ⟨hs.goto (by decide), hm⟩
    · cases hnext
      exact ⟨⟨hs.method, hs.resource, append_ok hs.query ⟨by simpa using h2, h1⟩ h3, hs.code,
        hs.message, by simp, hs.value, by simp⟩, hm⟩
  case parseHttpVersionH =>
    split_ifs at hnext
    · cases hnext
      exact ⟨hs.goto (by decide), hzero⟩
    · exact sane_httpLetter hs hm (by decide) hnext
  case parseHttpVersionT1 => exact sane_httpLetter hs hm (by decide) hnext
  case parseHttpVersionT2 => exact sane_httpLetter hs hm (by decide) hnext
  case parseHttpVersionP => exact sane_httpLetter hs hm (by decide) hnext
  case parseHttpVersionSlash => exact sane_httpLetter hs hm (by decide) hnext
  case parseHttpVersionMajorStart =>
    split_ifs at hnext
    cases hnext
    exact ⟨hs.goto (by decide), (headOk_version hm _).1⟩
  case parseHttpVersionMajor =>
    split_ifs at hnext
    · cases hnext
      exact ⟨hs.goto (by decide), hm⟩
    · cases hnext
      exact ⟨hs, (headOk_version hm _).1⟩
  case parseHttpVersionMinorStart =>
    split_ifs at hnext
    cases hnext
    exact ⟨hs.goto (by decide), (headOk_version hm _).2⟩
  case parseHttpVersionMinor =>
    split_ifs at hnext <;> cases hnext
    · exact ⟨hs.goto (by decide), hm⟩
    · exact ⟨hs, hm⟩
    · exact ⟨hs.goto (by decide), hm⟩
    · exact ⟨hs.goto (by decide), hm⟩
    · exact ⟨hs, (headOk_version hm _).2⟩
  case parseStatusCodeStart =>
    split_ifs at hnext with h1
    cases hnext
    exact ⟨⟨hs.method, hs.resource, hs.query, digitVal_lt (by simpa using h1), hs.message, by simp,
      hs.value, by simp⟩, hm⟩
  case parseStatusCode =>
    split_ifs at hnext <;> cases hnext
    · exact ⟨⟨hs.method, hs.resource, hs.query, hs.code, empty_ok, by simp, hs.value, by simp⟩, hm⟩
    · exact ⟨⟨hs.method, hs.resource, hs.query, Nat.mod_lt _ (by decide), hs.message, by simp,
        hs.value, by simp⟩, hm⟩
    · exact ⟨⟨hs.method, hs.resource, hs.query, hs.code, empty_ok, by simp, hs.value, by simp⟩, hm⟩
    · exact ⟨⟨hs.method, hs.resource, hs.query, hs.code, empty_ok, by simp, hs.value, by simp⟩, hm⟩
  case parseStatusMessage =>
    split_ifs at hnext with h1 h2 h3 h4 <;> cases hnext
    · exact ⟨hs.goto (by decide), hm⟩
    · exact ⟨hs.goto (by decide), hm⟩
    · exact ⟨⟨hs.method, hs.resource, hs.query, hs.code,
        append_ok hs.message (by simpa using h3) h4, by simp, hs.value, by simp⟩, hm⟩
  case parseExpectingNewline =>
    split_ifs at hnext
    · cases hnext
      exact ⟨hs.goto (by decide), hm⟩
    · exact sane_nameStart hs hm hnext
  case parseExpectingCr =>
    split_ifs at hnext
    · cases hnext
      exact ⟨hs.goto (by decide), hm⟩
    · exact sane_nameStart hs hm hnext
  case parseHeaderWhitespace =>
    split_ifs at hnext <;> cases hnext
    · exact ⟨hs.goto (by decide), hm⟩
    · exact ⟨hs.goto (by decide), hm⟩
    · exact ⟨hs, hm⟩
  case parseHeaderStart =>
    split_ifs at hnext
    · cases hnext
      exact ⟨hs.goto (by decide), hm⟩
    · cases hnext
      exact ⟨hs.goto (by decide), hm⟩
    · exact sane_nameStart hs hm hnext
  case parseHeaderName =>
    obtain ⟨⟨hne, hname⟩, hmax⟩ := hs.name (by simp)
    split_ifs at hnext with h1 h2 h3 <;> cases hnext
    · exact ⟨⟨hs.method, hs.resource, hs.query, hs.code, hs.message, fun _ => ⟨⟨hne, hname⟩, hmax⟩,
        empty_ok, fun _ => rfl⟩, hm⟩
    · obtain ⟨htoken, hlen⟩ := append_ok ⟨hname, hmax⟩ (by simpa using h2) h3
      exact ⟨⟨hs.method, hs.resource, hs.query, hs.code, hs.message,
        fun _ => ⟨⟨by simp, htoken⟩, hlen⟩, hs.value, by simp⟩, hm⟩
  -- behind its value, a header is added with the name that was read before
  case parseSpaceBeforeHeaderValue =>
    obtain ⟨hname, hmax⟩ := hs.name (by simp)
    have hadd := headOk_addHeader hm (k := name) (v := value) ⟨hname, hmax, hs.value.1, hs.value.2⟩
    split_ifs at hnext with h1 h2 h3 h4 <;> cases hnext
    · exact ⟨⟨hs.method, hs.resource, hs.query, hs.code, hs.message, fun _ => ⟨hname, hmax⟩,
        hs.value, by simp⟩, hm⟩
    · exact ⟨hs.goto (by decide), hadd⟩
    · exact ⟨hs.goto (by decide), hadd⟩
    · obtain rfl : value = [] := hs.noValue rfl
      exact ⟨⟨hs.method, hs.resource, hs.query, hs.code, hs.message, fun _ => ⟨hname, hmax⟩,
        append_ok empty_ok (text_of_token (by simpa using h4)) (by simp [headerValueMax]),
        by simp⟩, hm⟩
  case parseHeaderValue =>
    obtain ⟨hname, hmax⟩ := hs.name (by simp)
    have hadd := headOk_addHeader hm (k := name) (v := value) ⟨hname, hmax, hs.value.1, hs.value.2⟩
    split_ifs at hnext with h1 h2 h3 h4 <;> cases hnext
    · exact ⟨hs.goto (by decide), hadd⟩
    · exact ⟨hs.goto (by decide), hadd⟩
    · exact ⟨⟨hs.method, hs.resource, hs.query, hs.code, hs.message, fun _ => ⟨hname, hmax⟩,
        append_ok hs.value (by simpa using h3) h4, by simp⟩, hm⟩
  case parseExpectingFinalNewline => cases hnext
  case parseExpectingFinalCr => cases hnext

/-- A method has begun, or can still begin. -/
def HeaderMachine.HasMethod (h : HeaderMachine) : Prop :=
  h.headersParseState = .parseMethodStart ∨ h.method ≠ []

/-- A method is not empty behind its first byte. -/
lemma hasMethod_next {isRequest : Bool} {h : HeaderMachine} {m : HTTPMessage} {c : Byte}
    {t : HeaderMachine × HTTPMessage} (hm : h.HasMethod)
    (hnext : parseHeadersSwitch isRequest h m c = .next t) : t.1.HasMethod := by
  by_cases hst : h.headersParseState = .parseMethodStart
  · simp only [parseHeadersSwitch, hst] at hnext
    split_ifs at hnext
    · cases hnext
      exact Or.inr (by simp)
    · cases hnext
      exact Or.inl hst
  · have hne := hm.resolve_left hst
    refine Or.inr ?_
    unfold parseHeadersSwitch parseHeaderNameStart parseHttpLetter at hnext
    dsimp only at hnext
    split at hnext <;> (try split_ifs at hnext) <;> cases hnext <;> first | exact hne | simp

/-- The header does not end before the method of a request has begun. -/
lemma done_state {isRequest b : Bool} {h : HeaderMachine} {m : HTTPMessage} {c : Byte}
    {t : HeaderMachine × HTTPMessage}
    (hstop : parseHeadersSwitch isRequest h m c = .stop b .done t) :
    h.headersParseState ≠ .parseMethodStart := by
  intro hst
  simp only [parseHeadersSwitch, hst] at hstop
  split_ifs at hstop
  cases hstop

/-- The header machine does not touch the members of the subclass. -/
lemma kind_next {isRequest : Bool} {h : HeaderMachine} {m : HTTPMessage} {c : Byte}
    {t : HeaderMachine × HTTPMessage} (hnext : parseHeadersSwitch isRequest h m c = .next t) :
    t.2.kind = m.kind := by
  unfold parseHeadersSwitch parseHeaderNameStart parseHttpLetter at hnext
  dsimp only at hnext
  split at hnext <;> (try split_ifs at hnext) <;> cases hnext <;> rfl

lemma sane_saveRawHeader {h : HeaderMachine} (hs : h.Sane) (b : Bool) (c : Byte) :
    (saveRawHeader b h c).Sane := by
  rw [saveRawHeader]
  split_ifs
  · exact ⟨hs.method, hs.resource, hs.query, hs.code, hs.message, hs.name, hs.value, hs.noValue⟩
  · exact hs

lemma hasMethod_saveRawHeader {h : HeaderMachine} (hs : h.HasMethod) (b : Bool) (c : Byte) :
    (saveRawHeader b h c).HasMethod := by
  rw [saveRawHeader]
  split_ifs
  · exact hs
  · exact hs

/-! ### The message at the end of its header -/

namespace HTTPMessage

/-- A message behind its header, as far as `write` looks at it. -/
structure Headed (m : HTTPMessage) : Prop where
  head : m.HeadOk
  line : m.LineOk
  fresh : m.firstLine = []
  sendsLength : m.doNotSendContentLength = false
  framed : m.announcesChunks = m.isChunked

/-- A message that was accepted, as far as `write` looks at it: its framing is the one that
its headers announce. -/
structure Parsed (m : HTTPMessage) : Prop where
  headed : m.Headed
  buffer : m.contentBuf ≠ none
  implied : m.isChunked = false → m.isContentLengthImplied = true → m.contentLength = 0

/-- Nothing but the content is changed by what fills it. -/
lemma Headed.content {m : HTTPMessage} (hm : m.Headed) (n : ℕ) (cells : Option (List (Option Byte)))
    (cache : Bytes) (wild : Bool) :
    Headed { m with
      contentLength := n, contentBuf := cells, chunkCache := cache, wildWrite := wild } :=
  ⟨⟨hm.head.major, hm.head.minor, hm.head.headers⟩, hm.line, hm.fresh, hm.sendsLength, hm.framed⟩

lemma parsed_createContentBuffer {m : HTTPMessage} (hm : m.Headed)
    (himplied : m.isChunked = false → m.isContentLengthImplied = true → m.contentLength = 0) :
    m.createContentBuffer.Parsed :=
  ⟨hm.content _ _ _ _, by simp [createContentBuffer, writeContent], himplied⟩

lemma parsed_writeContent {m : HTTPMessage} (hm : m.Parsed) (i : ℕ) (w : Bytes) :
    (m.writeContent i w).Parsed := by
  refine ⟨hm.headed.content _ _ _ _, fun hnone => hm.buffer ?_, hm.implied⟩
  simpa [writeContent] using hnone

/-- The chunks are put together in a message that is chunked. -/
lemma parsed_concatenateChunks {m : HTTPMessage} (hm : m.Parsed) (hchunked : m.isChunked = true) :
    m.concatenateChunks.Parsed := by
  refine ⟨hm.headed.content _ _ _ _, ?_, fun hnot => ?_⟩
  · simp [concatenateChunks, createContentBuffer, writeContent]
  · exact absurd (hchunked.symm.trans hnot) (by simp)

lemma parsed_parsePostContent (b : Bool) {m : HTTPMessage} (hm : m.Parsed) :
    (parsePostContent b m).Parsed := by
  rw [parsePostContent]
  split_ifs
  · obtain ⟨⟨⟨hmajor, hminor, hheaders⟩, hline, hfresh, hsends, hframed⟩, hbuf, himplied⟩ := hm
    cases hk : m.kind with
    | response r => simpa only [setQueryParams, hk] using
        (⟨⟨⟨hmajor, hminor, hheaders⟩, hline, hfresh, hsends, hframed⟩, hbuf, himplied⟩ : m.Parsed)
    | request r =>
      simp only [LineOk, firstLineFields, hk] at hline
      simp only [setQueryParams, hk]
      exact ⟨⟨⟨hmajor, hminor, hheaders⟩, hline, hfresh, hsends, hframed⟩, hbuf,
        fun _ h => by simp [isContentLengthImplied] at h⟩
  · exact hm

/-- The fields that were read can be read again. -/
lemma lineOk_of_fields {h : HeaderMachine} {m : HTTPMessage} {isRequest : Bool} (hs : h.Sane)
    (hmethod : isRequest = true → h.method ≠ [])
    (hfields : m.firstLineFields = h.fields isRequest) : m.LineOk := by
  rw [LineOk]
  rw [hfields]
  cases isRequest with
  | true => exact ⟨⟨hmethod rfl, hs.method.1⟩, hs.method.2, hs.resource, hs.query⟩
  | false => exact ⟨hs.code, hs.message⟩

end HTTPMessage

/-- The fields of the first line tell a request from a response. -/
lemma HTTPMessage.isRequest_eq (m : HTTPMessage) : m.isRequest = m.firstLineFields.isLeft := by
  cases hm : m.kind <;> simp [isRequest, firstLineFields, hm]

lemma HeaderMachine.isLeft_fields (h : HeaderMachine) (isRequest : Bool) :
    (h.fields isRequest).isLeft = isRequest := by
  cases isRequest <;> rfl

lemma firstLine_updateMessageWithHeaderData (h : HeaderMachine) (m : HTTPMessage) :
    (updateMessageWithHeaderData m.isRequest h m).firstLine = [] := by
  cases hm : m.kind with
  | request r =>
    have hrequest : m.isRequest = true := by simp [HTTPMessage.isRequest, hm]
    simp only [hrequest, updateMessageWithHeaderData, if_true]
    split_ifs <;>
      simp [HTTPMessage.setMethod, HTTPMessage.setResource, HTTPMessage.setQueryString,
        HTTPMessage.setQueryParams, HTTPMessage.clearFirstLine, parseCookieHeaders, hm]
  | response r =>
    have hresponse : m.isRequest = false := by simp [HTTPMessage.isRequest, hm]
    simp [hresponse, updateMessageWithHeaderData, HTTPMessage.setStatusCode,
      HTTPMessage.setStatusMessage, HTTPMessage.clearFirstLine, parseCookieHeaders, hm]

/-! ### The parser -/

namespace Session

/-- What the bytes of a message that were read so far have left behind. -/
structure Reading (s : Session) : Prop where
  kind : s.msg.isRequest = s.parser.isRequest
  sendsLength : s.msg.doNotSendContentLength = false
  cache : s.msg.chunkCache.length ≤ s.parser.maxContentLength
  header : s.InHeaders → s.msg.HeadOk ∧ s.parser.header.Sane ∧
    (s.parser.isRequest = true → s.parser.header.HasMethod)
  body : s.InBody → s.msg.Parsed ∧ s.msg.contentLength ≤ s.parser.maxContentLength ∧
    (s.parser.messageParseState = .parseChunks → s.msg.isChunked = true)

lemma reading_headed {s : Session} (hs : s.Reading) (hst : s.InHeaders)
    (hmethod : s.parser.header.headersParseState ≠ .parseMethodStart) : s.headed.Headed := by
  obtain ⟨hhead, hsane, hhas⟩ := hs.header hst
  have hrequest : ({ s.msg with contentLength := 0, isChunked := s.msg.announcesChunks } :
      HTTPMessage).isRequest = s.parser.isRequest := hs.kind
  have hcode : s.parser.header.statusCode < uintMod := lt_trans hsane.code (by decide)
  have heq := head_updateMessageWithHeaderData (h := s.parser.header) (m := { s.msg with
    contentLength := 0, isChunked := s.msg.announcesChunks }) fun _ => hcode
  have hfirst := firstLine_updateMessageWithHeaderData s.parser.header { s.msg with
    contentLength := 0, isChunked := s.msg.announcesChunks }
  rw [hrequest] at heq hfirst
  have hsame : updateMessageWithHeaderData s.parser.isRequest s.parser.header { s.msg with
      contentLength := 0, isChunked := s.msg.announcesChunks } = s.headed := by
    rw [headed, updateTransferCodingUsingHeader_eq]
    rfl
  rw [hsame] at heq hfirst
  simp only [HTTPMessage.head, Prod.mk.injEq] at heq
  obtain ⟨hfields, ⟨hmajor, hminor⟩, hheaders⟩ := heq
  have hchunks : s.headed.announcesChunks = s.msg.announcesChunks := by
    simp only [HTTPMessage.announcesChunks, hheaders]
  refine ⟨⟨hmajor ▸ hhead.major, hminor ▸ hhead.minor, hheaders ▸ hhead.headers⟩, ?_, hfirst, ?_,
    hchunks.trans s.headed_isChunked.symm⟩
  · exact HTTPMessage.lineOk_of_fields hsane (fun h => (hhas h).resolve_left hmethod) hfields
  · have hsends := congrArg HTTPMessage.doNotSendContentLength s.withoutHead_headed
    rw [updateTransferCodingUsingHeader_eq] at hsends
    exact hsends.trans hs.sendsLength

lemma isRequest_headed {s : Session} (hs : s.Reading) (hst : s.InHeaders) :
    s.headed.isRequest = s.parser.isRequest := by
  obtain ⟨-, hsane, -⟩ := hs.header hst
  have hrequest : ({ s.msg with contentLength := 0, isChunked := s.msg.announcesChunks } :
      HTTPMessage).isRequest = s.parser.isRequest := hs.kind
  have heq := head_updateMessageWithHeaderData (h := s.parser.header) (m := { s.msg with
    contentLength := 0, isChunked := s.msg.announcesChunks })
    fun _ => lt_trans hsane.code (by decide)
  rw [hrequest] at heq
  have hfields : s.headed.firstLineFields = s.parser.header.fields s.parser.isRequest := by
    rw [headed, updateTransferCodingUsingHeader_eq]
    exact (Prod.mk.inj heq).1
  rw [HTTPMessage.isRequest_eq, hfields, HeaderMachine.isLeft_fields]

lemma isChunked_of_framing {isRequest : Bool} {m : HTTPMessage}
    (h : framing isRequest m = .chunked) : m.isChunked = true := by
  by_contra hnot
  rw [framing] at h
  rw [if_neg hnot] at h
  by_cases hi : m.isContentLengthImplied = true
  · rw [if_pos hi] at h
    cases h
  · rw [if_neg hi] at h
    split at h
    · split at h <;> cases h
    · split at h <;> cases h

lemma not_implied_of_framing {isRequest : Bool} {m : HTTPMessage} {n : ℕ}
    (h : framing isRequest m = .length n) : ¬ m.isContentLengthImplied = true := by
  intro hi
  rw [framing] at h
  rw [if_pos hi] at h
  split_ifs at h

/-- The end of the header gives a message that can be sent, unless its length is invalid. -/
lemma reading_finishHeaderParsing {s u : Session} {rc : Tribool} (hs : s.Reading)
    (hst : s.InHeaders) (hmethod : s.parser.header.headersParseState ≠ .parseMethodStart)
    (h : s.finishHeaderParsing = (rc, u)) (hrc : rc ≠ .no) :
    u.Reading ∧ u.msg.Parsed ∧ u.msg.contentLength ≤ u.parser.maxContentLength ∧
      (rc = .yes → s.parser.parseHeadersOnly = false → u.msg.contentLength = 0) := by
  have hheaded := reading_headed hs hst hmethod
  have hkind := isRequest_headed hs hst
  have hzero := s.headed_contentLength
  -- the end of the header is the end of a message only if no body follows
  have hopen : s.parser.parseHeadersOnly = false → s.bodyFollows = .indeterminate :=
    fun hfull => by simp [bodyFollows, hfull]
  have hcache : s.headed.chunkCache.length ≤ s.parser.maxContentLength := by
    have hsame := congrArg HTTPMessage.chunkCache s.withoutHead_headed
    rw [updateTransferCodingUsingHeader_eq] at hsame
    exact (congrArg List.length hsame).trans_le hs.cache
  rw [finishHeaderParsing_eq] at h
  cases hf : framing s.parser.isRequest s.headed with
  | invalidLength =>
    rw [hf] at h
    exact absurd (Prod.mk.inj h).1.symm hrc
  | chunked =>
    rw [hf] at h
    obtain ⟨hrc', rfl⟩ := Prod.mk.inj h
    have hchunked := isChunked_of_framing hf
    have hparsed := HTTPMessage.parsed_createContentBuffer hheaded fun _ _ => hzero
    have hle : s.headed.contentLength ≤ s.parser.maxContentLength := hzero.trans_le (Nat.zero_le _)
    refine ⟨⟨hkind, hheaded.sendsLength, hcache, ?_, fun _ => ⟨hparsed, hle, fun _ =>
      hchunked⟩⟩, hparsed, hle, fun hyes hfull => ?_⟩
    · rintro (hst' | hst') <;> cases hst'
    · rw [← hrc', hopen hfull] at hyes
      cases hyes
  | empty =>
    rw [hf] at h
    obtain ⟨-, rfl⟩ := Prod.mk.inj h
    have hparsed := HTTPMessage.parsed_createContentBuffer hheaded fun _ _ => hzero
    refine ⟨⟨hkind, hheaded.sendsLength, hcache, ?_, ?_⟩, hparsed,
      hzero.trans_le (Nat.zero_le _), fun _ _ => hzero⟩
    · rintro (hst' | hst') <;> cases hst'
    · rintro (hst' | hst' | hst') <;> cases hst'
  | untilEof =>
    rw [hf] at h
    obtain ⟨hrc', rfl⟩ := Prod.mk.inj h
    have hheaded' : HTTPMessage.Headed { s.headed with chunkCache := [] } :=
      hheaded.content s.headed.contentLength s.headed.contentBuf [] s.headed.wildWrite
    have hparsed := HTTPMessage.parsed_createContentBuffer hheaded' fun _ _ => hzero
    have hle : s.headed.contentLength ≤ s.parser.maxContentLength := hzero.trans_le (Nat.zero_le _)
    refine ⟨⟨hkind, hheaded.sendsLength, Nat.zero_le _, ?_, fun _ => ⟨hparsed, hle,
      fun hst' => ?_⟩⟩, hparsed, hle, fun hyes hfull => ?_⟩
    · rintro (hst' | hst') <;> cases hst'
    · cases hst'
    · rw [← hrc', hopen hfull] at hyes
      cases hyes
  | length n =>
    rw [hf] at h
    obtain ⟨hrc', rfl⟩ := Prod.mk.inj h
    have hheaded' : HTTPMessage.Headed { s.headed with
        contentLength := min n s.parser.maxContentLength } :=
      hheaded.content _ s.headed.contentBuf s.headed.chunkCache s.headed.wildWrite
    have hparsed := HTTPMessage.parsed_createContentBuffer hheaded' fun _ hi =>
      absurd hi (not_implied_of_framing hf)
    have hle : min n s.parser.maxContentLength ≤ s.parser.maxContentLength := Nat.min_le_right _ _
    refine ⟨⟨hkind, hheaded.sendsLength, hcache, ?_, fun _ => ⟨hparsed, hle,
      fun hst' => ?_⟩⟩, hparsed, hle, fun hyes hfull => ?_⟩
    · rintro (hst' | hst') <;> cases hst'
    · cases hst'
    · rw [← hrc', hopen hfull] at hyes
      cases hyes

/-- A byte of a chunked body adds at most itself to the cache, and only below the maximum. -/
lemma length_parseChunksChar {max : ℕ} {s t : ChunkMachine × Bytes} {c : Byte}
    (h : parseChunksChar max s c = .next t) :
    t.2.length ≤ s.2.length + 1 ∧ (s.2.length ≤ max → t.2.length ≤ max) := by
  unfold parseChunksChar parseExpected at h
  dsimp only at h
  split at h <;> (try split_ifs at h) <;> cases h <;> try exact ⟨Nat.le_succ _, id⟩
  all_goals
    rw [List.length_append, List.length_singleton]
    omega

/-- Every byte of the body that is followed by more. -/
lemma reading_bodyTurn {s s' : Session} {c : Byte} (hs : s.Reading) (hb : s.InBody)
    (h : s.bodyTurn c = .next s') : s'.Reading := by
  obtain ⟨hparsed, hle, hchunks⟩ := hs.body hb
  have hheaders : ∀ {t : Session}, t.parser.messageParseState = s.parser.messageParseState →
      t.InHeaders → t.msg.HeadOk ∧ t.parser.header.Sane ∧
        (t.parser.isRequest = true → t.parser.header.HasMethod) := by
    intro t ht hst
    exfalso
    simp only [InHeaders, InBody, ht] at hst hb
    rcases hst with hst | hst <;> simp [hst] at hb
  have hcached : ∀ cache : Bytes, HTTPMessage.Parsed { s.msg with chunkCache := cache } :=
    fun cache => ⟨hparsed.headed.content s.msg.contentLength s.msg.contentBuf cache
      s.msg.wildWrite, hparsed.buffer, hparsed.implied⟩
  rcases bodyTurn_next h with ⟨hst, t, ht, rfl⟩ | ⟨hst, -, rfl⟩ | ⟨hst, rfl⟩
  · exact ⟨hs.kind, hs.sendsLength, (length_parseChunksChar ht).2 hs.cache,
      hheaders rfl, fun _ => ⟨hcached t.2, hle, fun _ => hchunks hst⟩⟩
  · by_cases hlt : s.parser.bytesContentRead < s.parser.maxContentLength
    · have hmsg : (s.takeContent c).msg = s.msg.writeContent s.parser.bytesContentRead [c] :=
        if_pos hlt
      have hparsed' := HTTPMessage.parsed_writeContent hparsed s.parser.bytesContentRead [c]
      refine ⟨?_, ?_, ?_, hheaders rfl, fun _ => ?_⟩
      · rw [hmsg]
        exact hs.kind
      · rw [hmsg]
        exact hs.sendsLength
      · rw [hmsg]
        exact hs.cache
      · rw [hmsg]
        refine ⟨hparsed', hle, fun hst' => ?_⟩
        exact absurd (hst.symm.trans hst') (by simp)
    · have hmsg : (s.takeContent c).msg = s.msg := if_neg hlt
      refine ⟨?_, ?_, ?_, hheaders rfl, fun _ => ?_⟩
      · rw [hmsg]
        exact hs.kind
      · rw [hmsg]
        exact hs.sendsLength
      · rw [hmsg]
        exact hs.cache
      · rw [hmsg]
        exact ⟨hparsed, hle, hchunks⟩
  · refine ⟨hs.kind, hs.sendsLength, ?_, hheaders rfl, fun _ => ⟨hcached _, hle,
      fun hst' => ?_⟩⟩
    · show (cacheByte _ _ c).length ≤ s.parser.maxContentLength
      rw [cacheByte]
      split_ifs with hlt
      · rw [List.length_append, List.length_singleton]
        omega
      · exact hs.cache
    · exact absurd (hst.symm.trans hst') (by simp)

/-- The session with a byte of the header that ends it. -/
lemma reading_atEnd {s : Session} (hs : s.Reading) (hst : s.InHeaders) (c : Byte) :
    (s.atHeaders (saveRawHeader s.parser.saveRawHeaders s.parser.header c, s.msg)).Reading := by
  obtain ⟨hhead, hsane, hhas⟩ := hs.header hst
  refine ⟨hs.kind, hs.sendsLength, hs.cache, fun _ => ⟨hhead, sane_saveRawHeader hsane _ _,
    fun hr => hasMethod_saveRawHeader (hhas hr) _ _⟩, ?_⟩
  rintro (hst' | hst' | hst') <;> cases hst'

lemma method_of_endsHeader {s : Session} {c : Byte} (h : s.EndsHeader c) :
    (saveRawHeader s.parser.saveRawHeaders s.parser.header c).headersParseState ≠
      .parseMethodStart := by
  obtain ⟨b, t, ht⟩ := h
  exact done_state ht

/-- Every byte of the header that is consumed in it. -/
lemma reading_atHeaders {s : Session} {c : Byte} {t : HeaderMachine × HTTPMessage} (hs : s.Reading)
    (hst : s.InHeaders)
    (ht : parseHeadersChar s.parser.isRequest s.parser.saveRawHeaders (s.parser.header, s.msg) c =
      .next t) : (s.atHeaders t).Reading := by
  obtain ⟨hhead, hsane, hhas⟩ := hs.header hst
  have hkind := kind_next ht
  have hrest := parseHeadersSwitch_next ht
  have hcache := congrArg HTTPMessage.chunkCache hrest
  have hsends := congrArg HTTPMessage.doNotSendContentLength hrest
  obtain ⟨hsane', hhead'⟩ := sane_next (sane_saveRawHeader hsane _ c) hhead ht
  refine ⟨?_, hsends.trans hs.sendsLength, ?_, fun _ => ⟨hhead', hsane', fun hr =>
    hasMethod_next (hasMethod_saveRawHeader (hhas hr) _ c) ht⟩, ?_⟩
  · refine Eq.trans ?_ hs.kind
    simp only [atHeaders, HTTPMessage.isRequest, hkind]
  · exact (congrArg List.length hcache).trans_le hs.cache
  · rintro (hst' | hst' | hst') <;> cases hst'

/-! ### Accepted messages -/

lemma config_bodyTurn {s s' : Session} {c : Byte} (h : s.bodyTurn c = .next s') :
    s'.config = s.config := by
  rcases bodyTurn_next h with ⟨-, t, -, rfl⟩ | ⟨-, -, rfl⟩ | ⟨-, rfl⟩ <;> rfl

lemma config_byteTurn {s s' : Session} {c : Byte} (hs : s.InHeaders ∨ s.InBody)
    (h : s.byteTurn c = .next s') : s'.config = s.config := by
  rcases hs with hs | hs
  · rw [byteTurn_headers hs] at h
    rcases headerTurn_next h with ⟨t, -, rfl⟩ | ⟨-, u, hu, hnext⟩
    · rfl
    · have hu' : u.config = s.config := by
        rw [← show _ = u from congrArg Prod.snd hu, config_finishHeaderParsing]
        rfl
      rcases hnext with rfl | hnext
      · exact hu'
      · exact (config_bodyTurn hnext).trans hu'
  · rw [byteTurn_body hs] at h
    exact config_bodyTurn h

end Session

/-- A message that the parser has accepted: it can be sent, and all of its content is there
unless only the headers were parsed. -/
structure HTTPMessage.Accepted (m : HTTPMessage) (isRequest : Bool) (maxContentLength : ℕ)
    (parseHeadersOnly : Bool) : Prop where
  parsed : m.Parsed
  kind : m.isRequest = isRequest
  size : m.contentLength ≤ maxContentLength
  complete : parseHeadersOnly = false → m.contentLength + 1 < sizeMod → m.Complete

namespace Session

lemma accepted_conclude {s : Session} (hs : s.msg.Parsed)
    (hkind : s.msg.isRequest = s.parser.isRequest)
    (hsize : s.msg.contentLength ≤ s.parser.maxContentLength)
    (hcomplete : s.parser.parseHeadersOnly = false →
      (conclude .yes s).2.msg.contentLength + 1 < sizeMod → (conclude .yes s).2.msg.Complete) :
    (conclude .yes s).2.msg.Accepted s.parser.isRequest s.parser.maxContentLength
      s.parser.parseHeadersOnly := by
  have hstatus : (computeMsgStatus { s.msg with isValid := true } true).Parsed :=
    ⟨⟨⟨hs.headed.head.major, hs.headed.head.minor, hs.headed.head.headers⟩, hs.headed.line,
      hs.headed.fresh, hs.headed.sendsLength, hs.headed.framed⟩, hs.buffer, hs.implied⟩
  have hhead := conclude_yes_head s
  refine ⟨HTTPMessage.parsed_parsePostContent s.parser.isRequest hstatus, ?_,
    s.conclude_yes_content.1.trans_le hsize, hcomplete⟩
  rw [HTTPMessage.isRequest_eq, (Prod.mk.inj hhead).1, ← HTTPMessage.isRequest_eq, hkind]

/-- A message that ends with a byte of its body is accepted. -/
lemma accepted_bodyTurn {s s' : Session} {c : Byte} {b : Bool} (hs : s.Reading) (hsound : s.Sound)
    (hb : s.InBody) (h : s.bodyTurn c = .stop b .yes s') :
    s'.msg.Accepted s.parser.isRequest s.parser.maxContentLength s.parser.parseHeadersOnly := by
  have hcomplete := fun _ : s.parser.parseHeadersOnly = false => complete_of_bodyTurn hb hsound h
  obtain ⟨hparsed, hle, hchunks⟩ := hs.body hb
  rcases bodyTurn_yes hb h with ⟨hst, rfl⟩ | ⟨hst, hr, rfl⟩
  · exact accepted_conclude (HTTPMessage.parsed_concatenateChunks hparsed (hchunks hst)) hs.kind
      hs.cache hcomplete
  · refine accepted_conclude (s := s.takeContent c) ?_ ?_ ?_ hcomplete
    · simp only [takeContent]
      split_ifs
      · exact HTTPMessage.parsed_writeContent hparsed _ _
      · exact hparsed
    · refine Eq.trans ?_ hs.kind
      simp only [takeContent]
      split_ifs <;> rfl
    · refine Eq.trans_le ?_ hle
      simp only [takeContent]
      split_ifs <;> rfl

/-- A message that ends is accepted. -/
lemma accepted_byteTurn {s s' : Session} {c : Byte} {b : Bool} (hs : s.Reading) (hsound : s.Sound)
    (hst : s.InHeaders ∨ s.InBody) (h : s.byteTurn c = .stop b .yes s') :
    s'.msg.Accepted s.parser.isRequest s.parser.maxContentLength s.parser.parseHeadersOnly := by
  rcases hst with hst | hst
  · rw [byteTurn_headers hst] at h
    have hend := reading_atEnd hs hst c
    obtain ⟨hdone, u, hu⟩ := headerTurn_yes h
    have hmethod := method_of_endsHeader hdone
    rcases hu with ⟨hu, rfl⟩ | ⟨hu, hbody⟩
    · obtain ⟨hreading, hparsed, hle, hzero⟩ :=
        reading_finishHeaderParsing hend (Or.inr rfl) hmethod hu (by simp)
      have hconfig : u.config = s.config := by
        rw [← show _ = u from congrArg Prod.snd hu, config_finishHeaderParsing]
        rfl
      simp only [config, Prod.mk.injEq] at hconfig
      rw [← hconfig.1, ← hconfig.2.1, ← hconfig.2.2.1]
      refine accepted_conclude hparsed hreading.kind hle fun hfull _ => ?_
      rw [HTTPMessage.Complete, conclude_yes_cells, HTTPMessage.contentCells,
        hzero rfl (hconfig.2.2.1.symm.trans hfull)]
      simp
    · obtain ⟨hreading, -, -, -⟩ :=
        reading_finishHeaderParsing hend (Or.inr rfl) hmethod hu (by simp)
      have hconfig : u.config = s.config := by
        rw [← show _ = u from congrArg Prod.snd hu, config_finishHeaderParsing]
        rfl
      simp only [config, Prod.mk.injEq] at hconfig
      obtain ⟨hinbody, hready, -⟩ := finishHeaderParsing_open hu
      rw [← hconfig.1, ← hconfig.2.1, ← hconfig.2.2.1]
      exact accepted_bodyTurn hreading ⟨hready, stored_finishHeaderParsing hu⟩ hinbody hbody
  · rw [byteTurn_body hst] at h
    exact accepted_bodyTurn hs hsound hst h

lemma inBody_bodyTurn {s s' : Session} {c : Byte} (hs : s.InBody) (h : s.bodyTurn c = .next s') :
    s'.InBody := by
  rcases bodyTurn_next h with ⟨-, t, -, rfl⟩ | ⟨-, -, rfl⟩ | ⟨-, rfl⟩ <;> exact hs

/-- The bytes of a message that are followed by more. -/
lemma reading_byteTurn {s s' : Session} {c : Byte} (hs : s.Reading) (hst : s.InHeaders ∨ s.InBody)
    (h : s.byteTurn c = .next s') : s'.Reading ∧ (s'.InHeaders ∨ s'.InBody) := by
  rcases hst with hst | hst
  · rw [byteTurn_headers hst] at h
    rcases headerTurn_next h with ⟨t, ht, rfl⟩ | ⟨hdone, u, hu, hnext⟩
    · exact ⟨reading_atHeaders hs hst ht, Or.inl (Or.inr rfl)⟩
    · obtain ⟨hreading, -⟩ := reading_finishHeaderParsing (reading_atEnd hs hst c) (Or.inr rfl)
        (method_of_endsHeader hdone) hu (by simp)
      obtain ⟨hb, hready, -⟩ := finishHeaderParsing_open hu
      rcases hnext with rfl | hnext
      · exact ⟨hreading, Or.inr hb⟩
      · exact ⟨reading_bodyTurn hreading hb hnext, Or.inr (bodyTurn_open hready hnext).1⟩
  · rw [byteTurn_body hst] at h
    exact ⟨reading_bodyTurn hs hst h, Or.inr (inBody_bodyTurn hst h)⟩

/-- Whatever bytes the parser reads, a message that it accepts can be sent. -/
theorem accepted_scan {s : Session} (hs : s.Reading) (hsound : s.Sound)
    (hst : s.InHeaders ∨ s.InBody) {w : Bytes} (h : (scan byteTurn s w).result = some .yes) :
    (scan byteTurn s w).state.msg.Accepted s.parser.isRequest s.parser.maxContentLength
      s.parser.parseHeadersOnly := by
  refine scan_closed (P := fun t => t.Reading ∧ t.Sound ∧ (t.InHeaders ∨ t.InBody) ∧
      t.config = s.config)
    (Q := fun r t => r = .yes → t.msg.Accepted s.parser.isRequest s.parser.maxContentLength
      s.parser.parseHeadersOnly)
    ?_ ?_ ⟨hs, hsound, hst, rfl⟩ h rfl
  · rintro t c t' ⟨ht, htsound, htst, hconfig⟩ hnext
    obtain ⟨ht', htst'⟩ := reading_byteTurn ht htst hnext
    exact ⟨ht', sound_byteTurn htsound hnext, htst', (config_byteTurn htst hnext).trans hconfig⟩
  · rintro t c b r t' ⟨ht, htsound, htst, hconfig⟩ hstop rfl
    simp only [config, Prod.mk.injEq] at hconfig
    rw [← hconfig.1, ← hconfig.2.1, ← hconfig.2.2.1]
    exact accepted_byteTurn ht htsound htst hstop

/-- A new parser with a new message has read nothing. -/
lemma reading_newSession (kind : MessageKind) (chunksSupported : Bool) (maxContentLength : ℕ)
    (parseHeadersOnly saveRawHeaders : Bool) (ec : ErrorCode) :
    let m : HTTPMessage := { kind := kind, chunksSupported := chunksSupported }
    (newSession m.isRequest maxContentLength parseHeadersOnly saveRawHeaders m ec).Reading := by
  intro m
  have hone : 1 < uint16Mod := by decide
  have hzero : 0 < uint16Mod := by decide
  refine ⟨rfl, rfl, Nat.zero_le _, fun _ => ⟨⟨hone, hone, by simp [newSession, m]⟩,
    ?_, fun hrequest => Or.inl (if_pos hrequest)⟩, ?_⟩
  · refine ⟨empty_ok, empty_ok, empty_ok, hzero, empty_ok, ?_, empty_ok, fun _ => rfl⟩
    intro hst
    exfalso
    have hinit : ∀ b, ¬ (initialHeadersState b = .parseHeaderName ∨
        initialHeadersState b = .parseSpaceBeforeHeaderValue ∨
        initialHeadersState b = .parseHeaderValue) := by decide
    exact hinit _ hst
  · rintro (hst | hst | hst) <;> cases hst

end Session

end PionCore.Net
