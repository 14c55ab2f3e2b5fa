/-
# Writing a message and reading it back

`HTTPMessage::read` and what it makes of the output of `HTTPMessage::write`: a message that
the parser has room for, whose cached first line is up to date, is read back
(`reads_back`).
-/
import PionCore.Net.GapLaw
import PionCore.Net.HeaderText

namespace PionCore.Net

open PionCore.Lib

namespace HTTPMessage

/-- `HTTPMessage::read`: the number of bytes read, the message and the error code. -/
def read (m : HTTPMessage) (headersOnly : Bool) (input : Bytes) : ℕ × HTTPMessage × ErrorCode :=
  let x := readAll (newSession m.isRequest defaultContentMax headersOnly false m.clear .success)
    (input.map fun c => [c])
  let s :=
    match x.result with
    | some _ => x.state
    | none =>
        -- the end of the input is an error, unless it ends content of unknown length
        let s := { x.state with ec := .ioError }
        if input = [] then s
        else
          let (premature, s) := s.checkPrematureEOF
          if premature then s else { s with ec := .success }
  (s.parser.bytesTotalRead, s.msg, s.ec)

/-! ### What is compared -/

/-- The fields of the first line with the version, and the headers. -/
def head (m : HTTPMessage) :
    ((Bytes × Bytes × Bytes) ⊕ (ℕ × Bytes)) × (ℕ × ℕ) × StringDictionary :=
  (m.firstLineFields, (m.versionMajor, m.versionMinor), m.headers)

/-- Whether the headers say that the content is chunked. -/
def announcesChunks (m : HTTPMessage) : Bool :=
  match m.headers.find headerTransferEncoding with
  | none => false
  | some e => containsIgnoreCase e.2 (ascii "chunked")

/-- The same first line, and the same headers but for the two that the writer sets. -/
structure SameHead (m m' : HTTPMessage) : Prop where
  fields : m.firstLineFields = m'.firstLineFields
  major : m.versionMajor = m'.versionMajor
  minor : m.versionMinor = m'.versionMinor
  headers : ∀ k, equalIgnoreCase k headerConnection = false →
    equalIgnoreCase k headerContentLength = false →
      m.headers.equalRange k = m'.headers.equalRange k

/-- The message is read back into a message of its kind. -/
def ReadsBack (ord : HashOrder) (m target : HTTPMessage) : Prop :=
  let y := target.read false (m.write ord false).1
  y.2.2 = .success ∧ y.2.1.isValid = true ∧ y.2.1.SameHead m ∧
    y.2.1.contentCells = m.contentCells

/-! ### What the parser has room for -/

/-- A message that is written with its content length and that the parser has room for. -/
structure Sendable (m : HTTPMessage) : Prop where
  line : m.LineOk
  major : m.versionMajor < uint16Mod
  minor : m.versionMinor < uint16Mod
  headers : ∀ e ∈ m.headers, HeaderOk e
  notChunked : m.announcesChunks = false
  sendsLength : m.doNotSendContentLength = false
  complete : m.Complete
  size : m.contentLength ≤ defaultContentMax
  implied : m.isContentLengthImplied = true → m.contentLength = 0

/-- No other first line is cached than the one that would be built now. -/
def FreshLine (m : HTTPMessage) : Prop := m.firstLine = [] ∨ m.firstLine = m.updateFirstLine

instance (m : HTTPMessage) : Decidable m.FreshLine := inferInstanceAs (Decidable (_ ∨ _))

/-! ### The text that is written -/

lemma getFirstLine_fst (m : HTTPMessage) :
    m.getFirstLine.1 = if m.firstLine = [] then m.updateFirstLine else m.firstLine := by
  rw [getFirstLine]
  split_ifs <;> rfl

/-- The headers that are sent. -/
def sentHeaders (m : HTTPMessage) : StringDictionary :=
  (m.headers.changeValue headerConnection (ascii "Keep-Alive")).changeValue headerContentLength
    (numeral 10 m.contentLength)

lemma length_contentCells (m : HTTPMessage) : m.contentCells.length = m.contentLength := by
  simp [contentCells]

lemma Complete.contentCells_eq {m : HTTPMessage} (h : m.Complete) :
    m.contentCells = m.getContent.map some := by
  rw [getContent, List.map_map]
  refine (List.map_id _).symm.trans (List.map_congr_left fun c hc => ?_)
  cases c with
  | none => exact absurd hc h
  | some c => rfl

lemma length_getContent (m : HTTPMessage) : m.getContent.length = m.contentLength := by
  rw [getContent, List.length_map, length_contentCells]

/-- A complete content is written whole. -/
lemma content_ne_none {m : HTTPMessage} (h : m.Complete) (hpos : 0 < m.contentLength) :
    m.contentBuf ≠ none := by
  intro hnone
  exact not_complete hpos (by simp [hnone]) h

/-- The output of `write`: the first line, the headers and the content. -/
lemma write_eq (ord : HashOrder) {m : HTTPMessage} (hlength : m.doNotSendContentLength = false)
    (hbuf : 0 < m.contentLength → m.contentBuf ≠ none) :
    (m.write ord false).1 =
      (if m.firstLine = [] then m.updateFirstLine else m.firstLine) ++ (stringCRLF ++
        ((ord.walk m.sentHeaders).flatMap headerLine ++ (stringCRLF ++ m.getContent))) := by
  have hprepare : m.prepareHeadersForSend true false = { m with headers := m.sentHeaders } := by
    simp only [prepareHeadersForSend, changeHeader, hlength, sentHeaders]
    rfl
  have hline := getFirstLine_fst { m with headers := m.sentHeaders }
  have hrest : ({ m with headers := m.sentHeaders } : HTTPMessage).getFirstLine.2.headers =
        m.sentHeaders ∧
      ({ m with headers := m.sentHeaders } : HTTPMessage).getFirstLine.2.contentLength =
        m.contentLength ∧
      ({ m with headers := m.sentHeaders } : HTTPMessage).getFirstLine.2.contentBuf =
        m.contentBuf := by
    rw [getFirstLine]
    split_ifs <;> exact ⟨rfl, rfl, rfl⟩
  obtain ⟨hheaders, hlen, hsame⟩ := hrest
  have hcontent : ({ m with headers := m.sentHeaders } : HTTPMessage).getFirstLine.2.getContent =
      m.getContent := by
    simp only [getContent, contentCells, hlen, hsame]
  simp only [write, prepareBuffersForSend, hprepare, appendHeaders, hheaders, hlen, hsame, hcontent,
    hline, Bool.not_false, true_and]
  by_cases hpos : 0 < m.contentLength
  · rw [if_pos ⟨hpos, hbuf hpos⟩]
    simp only [List.append_assoc]
    rfl
  · have hnil : m.getContent = [] := by
      rw [← List.length_eq_zero_iff, length_getContent]
      omega
    rw [if_neg (fun h => hpos h.1), hnil]
    simp only [List.append_assoc, List.append_nil]
    rfl

/-- A value that can be read may be set. -/
lemma headerOk_changeValue {d : StringDictionary} {k v : Bytes} (hd : ∀ e ∈ d, HeaderOk e)
    (hkv : HeaderOk (k, v)) : ∀ e ∈ d.changeValue k v, HeaderOk e := by
  intro e he
  rcases StringDictionary.mem_changeValue he with he | ⟨hv, hk | ⟨f, hf, hk⟩⟩
  · exact hd e he
  · obtain ⟨e1, e2⟩ := e
    obtain rfl : e1 = k := hk
    obtain rfl : e2 = v := hv
    exact hkv
  · have hf' := hd f hf
    exact ⟨hk ▸ hf'.name, hk ▸ hf'.nameMax, hv ▸ hkv.value, hv ▸ hkv.valueMax⟩

/-- The header with a content length can be read. -/
lemma headerOk_contentLength {n : ℕ} (hn : n < sizeMod) :
    HeaderOk (headerContentLength, numeral 10 n) := by
  have htext : IsText (numeral 10 n) := fun c hc => text_of_digit (isDigit_of_mem_numeral hc)
  have hmax : (numeral 10 n).length ≤ headerValueMax := by
    rw [sizeMod] at hn
    have h20 : (numeral 10 n).length ≤ 20 := length_numeral (by omega) (by omega)
    rw [headerValueMax]
    omega
  have hname : IsToken headerContentLength ∧ headerContentLength.length ≤ headerNameMax := by decide
  exact ⟨hname.1, hname.2, htext, hmax⟩

/-- The headers that are sent can be read. -/
lemma sentHeaders_ok {m : HTTPMessage} (hm : ∀ e ∈ m.headers, HeaderOk e)
    (hsize : m.contentLength < sizeMod) : ∀ e ∈ m.sentHeaders, HeaderOk e :=
  headerOk_changeValue (headerOk_changeValue hm ⟨by decide, by decide, by decide, by decide⟩)
    (headerOk_contentLength hsize)

end HTTPMessage

/-! ### Reading a header that was written -/

lemma headers_updateMessageWithHeaderData (isRequest : Bool) (h : HeaderMachine) (m : HTTPMessage) :
    (updateMessageWithHeaderData isRequest h m).headers = m.headers := by
  rw [updateMessageWithHeaderData]
  cases hm : m.kind with
  | request r =>
    split_ifs <;>
      simp [HTTPMessage.setMethod, HTTPMessage.setResource, HTTPMessage.setQueryString,
        HTTPMessage.setQueryParams, HTTPMessage.setStatusCode, HTTPMessage.setStatusMessage,
        HTTPMessage.clearFirstLine, parseCookieHeaders, hm]
  | response r =>
    split_ifs <;>
      simp [HTTPMessage.setMethod, HTTPMessage.setResource, HTTPMessage.setQueryString,
        HTTPMessage.setQueryParams, HTTPMessage.setStatusCode, HTTPMessage.setStatusMessage,
        HTTPMessage.clearFirstLine, parseCookieHeaders, hm]

namespace Session

lemma updateTransferCodingUsingHeader_eq (m : HTTPMessage) :
    m.updateTransferCodingUsingHeader = { m with isChunked := m.announcesChunks } := by
  rw [HTTPMessage.updateTransferCodingUsingHeader, HTTPMessage.announcesChunks]
  cases m.headers.find headerTransferEncoding <;> rfl

lemma headed_isChunked (s : Session) : s.headed.isChunked = s.msg.announcesChunks := by
  have h := congrArg HTTPMessage.isChunked s.withoutHead_headed
  rw [updateTransferCodingUsingHeader_eq] at h
  exact h

lemma headers_headed (s : Session) : s.headed.headers = s.msg.headers := by
  rw [headed, headers_updateMessageWithHeaderData, updateTransferCodingUsingHeader_eq]

/-- The data of the header becomes the head of the message. -/
lemma head_updateMessageWithHeaderData {h : HeaderMachine} {m : HTTPMessage}
    (hcode : m.isRequest = false → h.statusCode < uintMod) :
    (updateMessageWithHeaderData m.isRequest h m).head =
      (h.fields m.isRequest, (m.versionMajor, m.versionMinor), m.headers) := by
  cases hm : m.kind with
  | request r =>
    have hrequest : m.isRequest = true := by simp [HTTPMessage.isRequest, hm]
    simp only [hrequest, updateMessageWithHeaderData, if_true]
    split_ifs <;>
      simp [HTTPMessage.head, HTTPMessage.firstLineFields, HeaderMachine.fields,
        HTTPMessage.setMethod, HTTPMessage.setResource, HTTPMessage.setQueryString,
        HTTPMessage.setQueryParams, HTTPMessage.clearFirstLine, parseCookieHeaders, hm]
  | response r =>
    have hrequest : m.isRequest = false := by simp [HTTPMessage.isRequest, hm]
    simp [hrequest, updateMessageWithHeaderData, HTTPMessage.head, HTTPMessage.firstLineFields,
      HeaderMachine.fields, HTTPMessage.setStatusCode, HTTPMessage.setStatusMessage,
      HTTPMessage.clearFirstLine, parseCookieHeaders, hm, Nat.mod_eq_of_lt (hcode hrequest)]

/-- A response keeps the method of its request. -/
lemma kind_updateMessageWithHeaderData (h : HeaderMachine) {m : HTTPMessage} {r : ResponseData}
    (hm : m.kind = .response r) :
    (updateMessageWithHeaderData false h m).kind = .response
      ⟨h.statusCode % uintMod, h.statusMessage, r.requestMethod⟩ := by
  simp [updateMessageWithHeaderData, HTTPMessage.setStatusCode, HTTPMessage.setStatusMessage,
    HTTPMessage.clearFirstLine, parseCookieHeaders, hm]

/-- A cleared response is not one to a `HEAD` request, so that only its code can imply that it
is empty. -/
lemma implied_of_clear {m target : HTTPMessage} (h : HeaderMachine) {m1 : HTTPMessage}
    (hm1 : m1.kind = target.clear.kind) (hclear : target.clear.isRequest = m.isRequest)
    (hfields : h.fields m.isRequest = m.firstLineFields)
    (hcode : m.isRequest = false → h.statusCode < uintMod)
    (himplied : (updateMessageWithHeaderData m.isRequest h m1).isContentLengthImplied = true) :
    m.isContentLengthImplied = true := by
  cases hm : m.kind with
  | request r =>
    have hrequest : m.isRequest = true := by simp [HTTPMessage.isRequest, hm]
    have hone : m1.isRequest = true := by
      rw [HTTPMessage.isRequest, hm1]
      exact hclear.trans hrequest
    have hhead := head_updateMessageWithHeaderData (h := h) (m := m1) (by simp [hone])
    rw [hone] at hhead
    rw [hrequest] at himplied
    have hf : (updateMessageWithHeaderData true h m1).firstLineFields = h.fields true :=
      (Prod.mk.inj hhead).1
    cases hk : (updateMessageWithHeaderData true h m1).kind with
    | request r' => simp [HTTPMessage.isContentLengthImplied, hk] at himplied
    | response r' => simp [HTTPMessage.firstLineFields, HeaderMachine.fields, hk] at hf
  | response r =>
    have hresponse : m.isRequest = false := by simp [HTTPMessage.isRequest, hm]
    have hkind : m1.kind = .response ⟨responseCodeOk, responseMessageOk, []⟩ := by
      rw [hm1]
      cases ht : target.kind with
      | request r' => simp [HTTPMessage.clear, HTTPMessage.isRequest, ht, hm] at hclear
      | response r' => simp [HTTPMessage.clear, ht]
    simp only [HeaderMachine.fields, hresponse, HTTPMessage.firstLineFields, hm, Bool.false_eq_true,
      if_false, Sum.inr.injEq, Prod.mk.injEq] at hfields
    have hlt := hcode hresponse
    rw [hfields.1] at hlt
    rw [hresponse] at himplied
    simp only [HTTPMessage.isContentLengthImplied, kind_updateMessageWithHeaderData h hkind,
      hfields.1, Nat.mod_eq_of_lt hlt] at himplied
    simp only [HTTPMessage.isContentLengthImplied, hm]
    have hhead : ([] : Bytes) ≠ requestMethodHead := by decide
    simp only [hhead, false_or] at himplied
    simp only [decide_eq_true_eq] at himplied ⊢
    exact Or.inr himplied

/-- The session at the end of a header that was written for a message `m`, with headers `es`. -/
structure HeadRead (u : Session) (m : HTTPMessage) (es : StringDictionary) : Prop where
  head : u.headed.head = (m.firstLineFields, (m.versionMajor, m.versionMinor), es)
  headers : u.msg.headers = es
  implied : u.headed.isContentLengthImplied = true → m.isContentLengthImplied = true
  parser : ∃ h, u.parser = { HTTPParser.new m.isRequest defaultContentMax false false with
    messageParseState := .parseHeaders, header := h }
  cache : u.msg.chunkCache = []
  isValid : u.msg.isValid = false
  ec : u.ec = .success

/-- A message that is about to be read: it has no headers and no content, and it is no response to
a request that implies an empty content, unless the message that was written is one. -/
structure Receives (t m : HTTPMessage) : Prop where
  isRequest : t.isRequest = m.isRequest
  headers : t.headers = []
  chunkCache : t.chunkCache = []
  isValid : t.isValid = false
  implied : ∀ (h : HeaderMachine) (m1 : HTTPMessage), m1.kind = t.kind →
    h.fields m.isRequest = m.firstLineFields →
    (m.isRequest = false → h.statusCode < uintMod) →
    (updateMessageWithHeaderData m.isRequest h m1).isContentLengthImplied = true →
    m.isContentLengthImplied = true

/-- A message that was cleared. -/
lemma receives_clear {m target : HTTPMessage} (hkind : target.isRequest = m.isRequest) :
    Receives target.clear m := by
  have hclear : target.clear.isRequest = m.isRequest := by
    rw [← hkind]
    cases ht : target.kind <;> simp [HTTPMessage.clear, HTTPMessage.isRequest, ht]
  have hempty : target.clear.headers = [] ∧ target.clear.chunkCache = [] ∧
      target.clear.isValid = false := by
    cases ht : target.kind <;> simp [HTTPMessage.clear, ht]
  exact ⟨hclear, hempty.1, hempty.2.1, hempty.2.2, fun h m1 hm1 hfields hcode himplied =>
    implied_of_clear h hm1 hclear hfields hcode himplied⟩

/-- The header of a message is read into a new message. -/
lemma scan_freshHead {m t : HTTPMessage} {es : StringDictionary} (hline : m.LineOk)
    (hmajor : m.versionMajor < uint16Mod) (hminor : m.versionMinor < uint16Mod)
    (hes : ∀ e ∈ es, HeaderOk e) (ht : Receives t m) (body : Bytes) :
    ∃ u : Session, u.HeadRead m es ∧
      scan byteTurn (newSession m.isRequest defaultContentMax false false t .success)
        (m.updateFirstLine ++ (stringCRLF ++ (es.flatMap HTTPMessage.headerLine ++
          (stringCRLF ++ body)))) =
      match settle u.finishHeaderParsing with
      | .inl (rc, v) => ⟨some rc, body, v⟩
      | .inr v => scan byteTurn v body := by
  obtain ⟨h, hfields, hscan⟩ := scan_header t hline hmajor hminor hes body
  set s := newSession m.isRequest defaultContentMax false false t .success with hs
  have hstart : scan (parseHeadersChar s.parser.isRequest s.parser.saveRawHeaders)
      (s.parser.header, s.msg) (m.updateFirstLine ++ (stringCRLF ++
        (es.flatMap HTTPMessage.headerLine ++ (stringCRLF ++ body)))) =
      ⟨some .done, body, (h, t.addHead m es)⟩ := hscan
  -- the status code of a response is read back without overflow
  have hcode : m.isRequest = false → h.statusCode < uintMod := by
    intro hresponse
    cases hm : m.kind with
    | request r => simp [HTTPMessage.isRequest, hm] at hresponse
    | response r =>
      have hsame : h.statusCode = r.statusCode := by
        simp only [HeaderMachine.fields, hresponse, HTTPMessage.firstLineFields, hm] at hfields
        exact (Prod.mk.inj (Sum.inr.inj hfields)).1
      have hlt : r.statusCode < uint16Mod := by
        simp only [HTTPMessage.LineOk, HTTPMessage.firstLineFields, hm] at hline
        exact hline.1
      rw [hsame]
      exact lt_trans hlt (by decide)
  have hhead := head_updateMessageWithHeaderData (h := h) (m := { t.addHead m es with
    contentLength := 0, isChunked := (t.addHead m es).announcesChunks })
    (fun hr => hcode (ht.isRequest.symm.trans hr))
  refine ⟨s.atHeaders (h, t.addHead m es), ⟨?_, ?_, ?_, ⟨h, rfl⟩, ht.chunkCache, ht.isValid,
    rfl⟩, ?_⟩
  · rw [headed, updateTransferCodingUsingHeader_eq]
    have hrequest : (s.atHeaders (h, t.addHead m es)).parser.isRequest =
      t.isRequest := ht.isRequest.symm
    rw [hrequest]
    refine Eq.trans hhead (congrArg₂ Prod.mk ?_ (congrArg₂ Prod.mk rfl ?_))
    · rw [← hfields, ← ht.isRequest]
      rfl
    · simp [HTTPMessage.addHead, ht.headers]
  · simp [atHeaders, HTTPMessage.addHead, ht.headers]
  · intro himplied
    rw [headed, updateTransferCodingUsingHeader_eq] at himplied
    refine ht.implied h _ ?_ hfields hcode himplied
    rfl
  · rw [scan_headers (Or.inl rfl) (by simp [stringCRLF]), hstart]
    simp only [leavePhase, leaveHeaders]
    split <;> simp_all

/-- The header of a message is read back by a new parser. -/
lemma scan_writtenHead {m target : HTTPMessage} {es : StringDictionary} (hline : m.LineOk)
    (hmajor : m.versionMajor < uint16Mod) (hminor : m.versionMinor < uint16Mod)
    (hes : ∀ e ∈ es, HeaderOk e) (hkind : target.isRequest = m.isRequest) (body : Bytes) :
    ∃ u : Session, u.HeadRead m es ∧
      scan byteTurn (newSession target.isRequest defaultContentMax false false target.clear
        .success) (m.updateFirstLine ++ (stringCRLF ++ (es.flatMap HTTPMessage.headerLine ++
          (stringCRLF ++ body)))) =
      match settle u.finishHeaderParsing with
      | .inl (rc, v) => ⟨some rc, body, v⟩
      | .inr v => scan byteTurn v body := by
  rw [hkind]
  exact scan_freshHead hline hmajor hminor hes (receives_clear hkind) body

end Session

/-! ### The headers that are sent -/

namespace HTTPMessage

/-- But for the two that are set, the headers that are sent are those of the message. -/
lemma equalRange_sent (ord : HashOrder) (m : HTTPMessage) {k : Bytes}
    (hconnection : equalIgnoreCase k headerConnection = false)
    (hlength : equalIgnoreCase k headerContentLength = false) :
    StringDictionary.equalRange (ord.walk m.sentHeaders) k = m.headers.equalRange k := by
  calc StringDictionary.equalRange (ord.walk m.sentHeaders) k
      = m.sentHeaders.equalRange k := ord.equalRange_walk k m.sentHeaders
    _ = (m.headers.changeValue headerConnection (ascii "Keep-Alive")).equalRange k :=
        StringDictionary.equalRange_changeValue_of_ne hlength _ _
    _ = m.headers.equalRange k := StringDictionary.equalRange_changeValue_of_ne hconnection _ _

lemma find_sent (ord : HashOrder) (m : HTTPMessage) : ∃ k,
    StringDictionary.find (ord.walk m.sentHeaders) headerContentLength =
      some (k, numeral 10 m.contentLength) := by
  obtain ⟨k, -, hk⟩ := StringDictionary.equalRange_changeValue
    (m.headers.changeValue headerConnection (ascii "Keep-Alive")) headerContentLength
    (numeral 10 m.contentLength)
  have hwalk : StringDictionary.equalRange (ord.walk m.sentHeaders) headerContentLength =
      m.sentHeaders.equalRange headerContentLength := ord.equalRange_walk _ _
  refine ⟨k, ?_⟩
  rw [StringDictionary.find_eq_head, hwalk, sentHeaders, hk]
  rfl

/-- What is sent announces chunks if the message does. -/
lemma announcesChunks_sent (ord : HashOrder) (m : HTTPMessage) {m' : HTTPMessage}
    (h : m'.headers = ord.walk m.sentHeaders) : m'.announcesChunks = m.announcesChunks := by
  have hfind : m'.headers.find headerTransferEncoding = m.headers.find headerTransferEncoding := by
    rw [StringDictionary.find_eq_head, StringDictionary.find_eq_head, h,
      equalRange_sent ord m (by decide) (by decide)]
  simp only [announcesChunks, hfind]

end HTTPMessage

namespace Session

/-- The content length that is sent is the framing that is read, unless chunks are announced. -/
lemma framing_sent (ord : HashOrder) {m : HTTPMessage} {u : Session}
    (hu : u.HeadRead m (ord.walk m.sentHeaders)) (hchunks : m.announcesChunks = false)
    (hsize : m.contentLength < sizeMod)
    (himplied : m.isContentLengthImplied = true → m.contentLength = 0) :
    framing u.parser.isRequest u.headed =
      if m.contentLength = 0 then .empty else .length m.contentLength := by
  have hchunked : u.headed.isChunked = false := by
    rw [headed_isChunked, HTTPMessage.announcesChunks_sent ord m hu.headers, hchunks]
  have hheaders : u.headed.headers = ord.walk m.sentHeaders :=
    (Prod.mk.inj (Prod.mk.inj hu.head).2).2
  obtain ⟨k, hk⟩ := HTTPMessage.find_sent ord m
  have htrim : trim (numeral 10 m.contentLength) = numeral 10 m.contentLength :=
    trim_eq_self fun c hc => isSpace_of_isDigit (isDigit_of_mem_numeral hc)
  rw [framing]
  rw [hchunked, hheaders, hk]
  simp only [Bool.false_eq_true, if_false, htrim, lexicalCast_numeral hsize]
  by_cases hi : u.headed.isContentLengthImplied = true
  · rw [if_pos hi, if_pos (himplied (hu.implied hi))]
  · rw [if_neg hi]
    cases m.contentLength <;> simp

lemma head_parsePostContent (b : Bool) (m : HTTPMessage) :
    (parsePostContent b m).head = m.head := by
  rw [parsePostContent]
  split_ifs
  · cases hm : m.kind <;>
      simp [HTTPMessage.setQueryParams, HTTPMessage.head, HTTPMessage.firstLineFields, hm]
  · rfl

lemma conclude_yes_head (s : Session) : (conclude .yes s).2.msg.head = s.msg.head :=
  head_parsePostContent s.parser.isRequest (computeMsgStatus { s.msg with isValid := true } true)

lemma conclude_yes_isValid (s : Session) : (conclude .yes s).2.msg.isValid = true :=
  (congrArg HTTPMessage.isValid s.conclude_yes_withoutHead :
    (conclude .yes s).2.msg.withoutHead.isValid = _)

/-- A message that is written is read to its end, with its head and its content. -/
lemma scan_sent (ord : HashOrder) {m t : HTTPMessage} (hm : m.Sendable) (ht : Receives t m) :
    ∃ v : Session, scan byteTurn (newSession m.isRequest defaultContentMax false false t .success)
        (m.updateFirstLine ++ (stringCRLF ++
          ((ord.walk m.sentHeaders).flatMap HTTPMessage.headerLine ++
            (stringCRLF ++ m.getContent)))) = ⟨some .yes, [], v⟩ ∧
      v.ec = .success ∧ v.msg.isValid = true ∧
      v.msg.head = (m.firstLineFields, (m.versionMajor, m.versionMinor), ord.walk m.sentHeaders) ∧
      v.msg.contentCells = m.contentCells := by
  have hok : ∀ e ∈ ord.walk m.sentHeaders, HeaderOk e := fun e he =>
    HTTPMessage.sentHeaders_ok hm.headers (lt_of_le_of_lt hm.size (by decide)) e
      ((ord.mem_walk equalIgnoreCase_self).1 he)
  obtain ⟨u, hu, hscan⟩ := scan_freshHead hm.line hm.major hm.minor hok ht m.getContent
  have hsize := hm.size
  have hframing := framing_sent ord hu hm.notChunked
    (lt_of_le_of_lt hsize (by decide)) hm.implied
  obtain ⟨h, hparser⟩ := hu.parser
  rw [hscan, finishHeaderParsing_eq, hframing]
  by_cases hzero : m.contentLength = 0
  · -- without content, the message ends with its header
    have hnil : m.getContent = [] := by
      rw [← List.length_eq_zero_iff, HTTPMessage.length_getContent, hzero]
    rw [if_pos hzero, hnil]
    refine ⟨_, rfl, hu.ec, conclude_yes_isValid _, (conclude_yes_head _).trans hu.head, ?_⟩
    refine (conclude_yes_cells _).trans ?_
    rw [hm.complete.contentCells_eq, hnil, List.map_nil, ← List.length_eq_zero_iff,
      HTTPMessage.length_contentCells]
    exact u.headed_contentLength
  · rw [if_neg hzero]
    have hfollows : u.bodyFollows = .indeterminate := by
      simp [bodyFollows, hparser, HTTPParser.new]
    have hmax : u.parser.maxContentLength = defaultContentMax := by
      simp [hparser, HTTPParser.new]
    have hlength := m.length_getContent
    set w := (u.startBody (.length m.contentLength)).2 with hw
    have hstart : u.startBody (.length m.contentLength) = (.indeterminate, w) :=
      congrArg (fun rc => (rc, w)) hfollows
    have hopen := finishHeaderParsing_open
      ((finishHeaderParsing_eq u).trans ((congrArg u.startBody
        (hframing.trans (if_neg hzero))).trans hstart))
    have hdone := scan_content_done (s := w) (u := []) rfl hlength
      (by rw [← List.length_pos_iff, hlength]; omega)
    rw [List.append_nil] at hdone
    rw [hstart]
    refine ⟨_, (scan_body hopen.1 hopen.2.1 _).trans hdone, hu.ec, conclude_yes_isValid _,
      (conclude_yes_head _).trans hu.head, ?_⟩
    refine (conclude_yes_cells _).trans ?_
    rw [hm.complete.contentCells_eq]
    have hfits : min m.contentLength u.parser.maxContentLength = m.contentLength := by
      rw [hmax, Nat.min_eq_left hsize]
    -- the content fits the buffer that the header has made
    have hroom : w.msg = { u.headed with
        contentLength := m.contentLength
        contentBuf := some (List.replicate m.contentLength none ++ [some 0]) } := by
      have hcreate := HTTPMessage.createContentBuffer_eq (m := { u.headed with
        contentLength := m.contentLength })
        (lt_of_le_of_lt (Nat.add_le_add_right hsize 1) (by decide))
      rw [← hcreate, hw]
      simp only [startBody, hfits]
    have hwrite := Memory.write_eq [] (List.replicate m.contentLength none ++ [some (0 : Byte)])
      (w := m.getContent) (by simp [hlength])
    have hmsg : (w.advanceContent m.getContent).msg =
        w.msg.writeContent 0 (m.getContent.take (u.parser.maxContentLength - 0)) := rfl
    rw [hmsg, Nat.sub_zero, hmax, List.take_of_length_le (by rw [hlength]; exact hsize)]
    refine @HTTPMessage.contentCells_eq _ _ [some 0] ?_ ?_
    · rw [hroom]
      exact hlength.symm
    · rw [HTTPMessage.writeContent_contentBuf (congrArg HTTPMessage.contentBuf hroom)]
      rw [List.length_nil, List.nil_append, List.nil_append] at hwrite
      rw [hwrite, hlength, List.drop_left' (by simp)]

/-- The same for a message that was cleared. -/
lemma scan_written (ord : HashOrder) {m target : HTTPMessage} (hm : m.Sendable)
    (hkind : target.isRequest = m.isRequest) :
    ∃ v : Session, scan byteTurn (newSession target.isRequest defaultContentMax false false
        target.clear .success) (m.updateFirstLine ++ (stringCRLF ++
          ((ord.walk m.sentHeaders).flatMap HTTPMessage.headerLine ++
            (stringCRLF ++ m.getContent)))) = ⟨some .yes, [], v⟩ ∧
      v.ec = .success ∧ v.msg.isValid = true ∧
      v.msg.head = (m.firstLineFields, (m.versionMajor, m.versionMinor), ord.walk m.sentHeaders) ∧
      v.msg.contentCells = m.contentCells := by
  rw [hkind]
  exact scan_sent ord hm (receives_clear hkind)

end Session

/-! ### Reading back -/

namespace HTTPMessage

/-- One byte after the other is read as the machine reads them. -/
lemma readAll_bytes {s : Session} (hs : s.Ready) (out : Bytes) :
    (readAll s (out.map fun c => [c])).map Session.blind =
      (scan Session.byteTurn s out).map Session.blind := by
  have hone := @readAll_eq _ hs (out.map fun c => [c]) (by simp)
  have hflat : (out.map fun c => [c]).flatten = out := by
    rw [← List.flatMap_def]
    exact List.flatMap_singleton' out
  rw [hflat] at hone
  exact (Session.map_blind_of_forget hone).trans (Session.scan_dataTurn_blind hs out)

/-- The message that is read to a result is that of the machine, but for what is not looked
at. -/
lemma read_of_scan {target : HTTPMessage} {out rest : Bytes} {rc : Tribool} {v : Session}
    (h : scan Session.byteTurn (newSession target.isRequest defaultContentMax false false
      target.clear .success) out = ⟨some rc, rest, v⟩) :
    ∃ x : Session, x.blind = v.blind ∧ (target.read false out).2 = (x.msg, x.ec) := by
  have hblind := readAll_bytes (newSession_ready target.isRequest defaultContentMax false false
    target.clear .success) out
  rw [h] at hblind
  obtain ⟨hresult, -, hstate⟩ := Scanned.mk.inj hblind
  refine ⟨_, hstate, ?_⟩
  simp only [read]
  rw [hresult]

/-- The end of the input is an error where it does not end content of unknown length. -/
lemma read_of_open {target : HTTPMessage} {out rest : Bytes} {v : Session}
    (h : scan Session.byteTurn (newSession target.isRequest defaultContentMax false false
      target.clear .success) out = ⟨none, rest, v⟩)
    (hst : v.parser.messageParseState ≠ .parseContentNoLength) :
    (target.read false out).2.2 = .ioError := by
  have hblind := readAll_bytes (newSession_ready target.isRequest defaultContentMax false false
    target.clear .success) out
  rw [h] at hblind
  obtain ⟨hresult, -, hstate⟩ := Scanned.mk.inj hblind
  have hsame : (readAll (newSession target.isRequest defaultContentMax false false target.clear
      .success) (out.map fun c => [c])).state.parser.messageParseState =
      v.parser.messageParseState := congrArg (fun s => s.parser.messageParseState) hstate
  have heof : ∀ t : Session, t.parser.messageParseState = v.parser.messageParseState →
      t.checkPrematureEOF = (true, t) := by
    intro t ht
    rw [Session.checkPrematureEOF, if_pos (by rwa [ht])]
  simp only [read]
  rw [hresult]
  dsimp only
  split_ifs with hnil hpremature
  · rfl
  · exact congrArg (fun y : Bool × Session => y.2.ec) (heof ⟨_, _, .ioError⟩ hsame)
  · exact absurd (congrArg Prod.fst (heof ⟨_, _, .ioError⟩ hsame)) hpremature

/-- A message that is written from an up to date first line and that the parser has room for
is read back. -/
theorem reads_back (ord : HashOrder) {m target : HTTPMessage} (hm : m.Sendable)
    (hfresh : m.FreshLine) (hkind : target.isRequest = m.isRequest) : m.ReadsBack ord target := by
  obtain ⟨v, hscan, hec, hvalid, hhead, hcells⟩ := Session.scan_written ord hm hkind
  have hline : (if m.firstLine = [] then m.updateFirstLine else m.firstLine) =
      m.updateFirstLine := by
    split_ifs with h
    · rfl
    · exact hfresh.resolve_left h
  rw [← hline, ← write_eq ord hm.sendsLength (content_ne_none hm.complete)] at hscan
  obtain ⟨x, hx, hread⟩ := read_of_scan hscan
  have hhead' : x.msg.head = (m.firstLineFields, (m.versionMajor, m.versionMinor),
      ord.walk m.sentHeaders) := (congrArg (fun s => s.msg.head) hx).trans hhead
  simp only [head, Prod.mk.injEq] at hhead'
  obtain ⟨hfields, ⟨hmajor, hminor⟩, hheaders⟩ := hhead'
  rw [ReadsBack, hread]
  refine ⟨(congrArg Session.ec hx).trans hec, (congrArg (fun s => s.msg.isValid) hx).trans hvalid,
    ⟨hfields, hmajor, hminor, fun k h1 h2 => ?_⟩,
    (congrArg (fun s => s.msg.contentCells) hx).trans hcells⟩
  rw [hheaders]
  exact equalRange_sent ord m h1 h2

end HTTPMessage

end PionCore.Net
