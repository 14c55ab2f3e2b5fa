/-
# Writing a message that was parsed

A message that the parser has accepted is written and read back if and only if it is not
chunked and `HTTPMessage::read` has room for its content (`reserialise`).  A chunked message
keeps the header that announces the chunks, but its content is written as it is, behind a
content length.
-/
import PionCore.Net.Accepted

namespace PionCore.Net

open PionCore.Lib

namespace HTTPMessage

/-- The message is written, and read back with the same first line and the same content. -/
def Reserialised (ord : HashOrder) (m target : HTTPMessage) : Prop :=
  let y := target.read false (m.write ord false).1
  y.2.2 = .success ∧ y.2.1.isValid = true ∧
    (y.2.1.firstLineFields, y.2.1.versionMajor, y.2.1.versionMinor) =
      (m.firstLineFields, m.versionMajor, m.versionMinor) ∧
    y.2.1.contentCells = m.contentCells

instance (ord : HashOrder) (m target : HTTPMessage) : Decidable (m.Reserialised ord target) :=
  inferInstanceAs (Decidable (_ ∧ _))

/-! ### Messages that are read back -/

variable {m target : HTTPMessage} {isRequest : Bool} {max : ℕ}

lemma Accepted.sendable (hm : m.Accepted isRequest max false) (hchunked : m.isChunked = false)
    (hsize : m.contentLength ≤ defaultContentMax) : m.Sendable where
  line := hm.parsed.headed.line
  major := hm.parsed.headed.head.major
  minor := hm.parsed.headed.head.minor
  headers := hm.parsed.headed.head.headers
  notChunked := hm.parsed.headed.framed.trans hchunked
  sendsLength := hm.parsed.headed.sendsLength
  complete := hm.complete rfl (lt_of_le_of_lt (Nat.add_le_add_right hsize 1) (by decide))
  size := hsize
  implied := hm.parsed.implied hchunked

lemma reserialised_of_accepted (ord : HashOrder) (hm : m.Accepted isRequest max false)
    (hchunked : m.isChunked = false) (hsize : m.contentLength ≤ defaultContentMax)
    (hkind : target.isRequest = m.isRequest) : m.Reserialised ord target := by
  obtain ⟨hec, hvalid, hsame, hcells⟩ := reads_back ord (hm.sendable hchunked hsize)
    (Or.inl hm.parsed.headed.fresh) hkind
  refine ⟨hec, hvalid, ?_, hcells⟩
  rw [hsame.fields, hsame.major, hsame.minor]

/-! ### Messages that are not -/

/-- A message that is read to another content is not read back. -/
lemma not_reserialised_of_length {ord : HashOrder} {rest : Bytes} {rc : Tribool} {v : Session}
    (h : scan Session.byteTurn (newSession target.isRequest defaultContentMax false false
      target.clear .success) (m.write ord false).1 = ⟨some rc, rest, v⟩)
    (hlen : v.msg.contentLength ≠ m.contentLength) : ¬ m.Reserialised ord target := by
  rintro ⟨-, -, -, hcells⟩
  obtain ⟨x, hx, hread⟩ := read_of_scan h
  rw [hread] at hcells
  have hsame : x.msg.contentCells = v.msg.contentCells := congrArg (fun s => s.msg.contentCells) hx
  rw [hsame] at hcells
  refine hlen ?_
  rw [← v.msg.length_contentCells, hcells, m.length_contentCells]

/-- A message that is not valid when it is read is not read back. -/
lemma not_reserialised_of_invalid {ord : HashOrder} {rest : Bytes} {rc : Tribool} {v : Session}
    (h : scan Session.byteTurn (newSession target.isRequest defaultContentMax false false
      target.clear .success) (m.write ord false).1 = ⟨some rc, rest, v⟩)
    (hvalid : v.msg.isValid = false) : ¬ m.Reserialised ord target := by
  rintro ⟨-, hread, -⟩
  obtain ⟨x, hx, hsame⟩ := read_of_scan h
  rw [hsame] at hread
  have hblind : x.msg.isValid = v.msg.isValid := congrArg (fun s => s.msg.isValid) hx
  exact absurd (hread.symm.trans (hblind.trans hvalid)) (by simp)

/-- A message that ends too early is not read back. -/
lemma not_reserialised_of_open {ord : HashOrder} {rest : Bytes} {v : Session}
    (h : scan Session.byteTurn (newSession target.isRequest defaultContentMax false false
      target.clear .success) (m.write ord false).1 = ⟨none, rest, v⟩)
    (hst : v.parser.messageParseState ≠ .parseContentNoLength) :
    ¬ m.Reserialised ord target := by
  rintro ⟨hec, -⟩
  exact absurd (hec.symm.trans (read_of_open h hst)) (by simp)

end HTTPMessage

namespace Session

variable {m target : HTTPMessage}

/-- What is written for a message is read up to the end of its header. -/
lemma scan_parsed (ord : HashOrder) (hm : m.Parsed) (hsize : m.contentLength < sizeMod)
    (hkind : target.isRequest = m.isRequest) :
    ∃ u : Session, u.HeadRead m (ord.walk m.sentHeaders) ∧
      scan byteTurn (newSession target.isRequest defaultContentMax false false target.clear
        .success) (m.write ord false).1 =
      match settle u.finishHeaderParsing with
      | .inl (rc, v) => ⟨some rc, m.getContent, v⟩
      | .inr v => scan byteTurn v m.getContent := by
  have hok : ∀ e ∈ ord.walk m.sentHeaders, HeaderOk e := fun e he =>
    HTTPMessage.sentHeaders_ok hm.headed.head.headers hsize e
      ((ord.mem_walk equalIgnoreCase_self).1 he)
  rw [HTTPMessage.write_eq ord hm.headed.sendsLength fun _ => hm.buffer, if_pos hm.headed.fresh]
  exact scan_writtenHead hm.headed.line hm.headed.head.major hm.headed.head.minor hok hkind
    m.getContent

/-- A chunked body is longer than the payload that it carries. -/
lemma length_scan_chunks {max : ℕ} (s : ChunkMachine × Bytes) (w : Bytes)
    (h : (scan (parseChunksChar max) s w).result ≠ none) :
    (scan (parseChunksChar max) s w).state.2.length < s.2.length + w.length := by
  induction w generalizing s with
  | nil => exact absurd rfl h
  | cons c w ih =>
    cases hc : parseChunksChar max s c with
    | next t =>
      rw [scan_next hc] at h ⊢
      have hlen := (length_parseChunksChar hc).1
      have htail := ih t h
      rw [List.length_cons]
      omega
    | stop b r t =>
      obtain rfl := parseChunksChar_stop hc
      cases b with
      | true =>
        rw [scan_stop hc]
        show t.2.length < t.2.length + (w.length + 1)
        omega
      | false =>
        rw [scan_halt hc]
        show t.2.length < t.2.length + (w.length + 1)
        omega

/-- The content of a chunked message is not a chunked body for that content. -/
theorem not_reserialised_chunked (ord : HashOrder) (hm : m.Parsed)
    (hsize : m.contentLength < sizeMod) (hkind : target.isRequest = m.isRequest)
    (hchunked : m.isChunked = true) : ¬ m.Reserialised ord target := by
  obtain ⟨u, hu, hscan⟩ := scan_parsed ord hm hsize hkind
  have hannounced : u.headed.isChunked = true := by
    rw [headed_isChunked, HTTPMessage.announcesChunks_sent ord m hu.headers, hm.headed.framed,
      hchunked]
  have hframing : framing u.parser.isRequest u.headed = .chunked := if_pos hannounced
  obtain ⟨h, hparser⟩ := hu.parser
  have hfollows : u.bodyFollows = .indeterminate := by
    simp [bodyFollows, hparser, HTTPParser.new]
  set w := (u.startBody .chunked).2 with hw
  have hstart : u.startBody .chunked = (.indeterminate, w) := congrArg (fun rc => (rc, w)) hfollows
  have hfinish : u.finishHeaderParsing = (.indeterminate, w) := by
    rw [finishHeaderParsing_eq, hframing, hstart]
  have hopen := finishHeaderParsing_open hfinish
  have hst : w.parser.messageParseState = .parseChunks := rfl
  have hbefore : u.headed.chunkCache = [] ∧ u.headed.isValid = false := by
    have hrest := u.withoutHead_headed
    rw [updateTransferCodingUsingHeader_eq] at hrest
    exact ⟨(congrArg HTTPMessage.chunkCache hrest).trans hu.cache,
      (congrArg HTTPMessage.isValid hrest).trans hu.isValid⟩
  have hcache : w.msg.chunkCache = [] := hbefore.1
  have hlose := @length_scan_chunks w.parser.maxContentLength
    (w.parser.chunk, w.msg.chunkCache) m.getContent
  rw [hfinish] at hscan
  have hbody : scan byteTurn w m.getContent = _ :=
    (scan_body hopen.1 hopen.2.1 _).trans (scan_chunks hst m.getContent)
  simp only [settle, hbody] at hscan
  generalize scan (parseChunksChar w.parser.maxContentLength) (w.parser.chunk, w.msg.chunkCache)
    m.getContent = x at hscan hlose
  obtain ⟨result, rest, t⟩ := x
  cases result with
  | none =>
    refine HTTPMessage.not_reserialised_of_open hscan ?_
    show w.parser.messageParseState ≠ _
    simp [hst]
  | some r =>
    cases r with
    | failed ev =>
      exact HTTPMessage.not_reserialised_of_invalid hscan (by cases ev <;> exact hbefore.2)
    | done =>
      refine HTTPMessage.not_reserialised_of_length hscan ?_
      have hlen := hlose (by simp)
      rw [hcache, HTTPMessage.length_getContent, List.length_nil, Nat.zero_add] at hlen
      exact ne_of_eq_of_ne (conclude_yes_content { w.atChunks t with
        msg := (w.atChunks t).msg.concatenateChunks }).1 (Nat.ne_of_lt hlen)

/-- A content of more than the default maximum is cut when it is read. -/
theorem not_reserialised_long (ord : HashOrder) (hm : m.Parsed) (hsize : m.contentLength < sizeMod)
    (hkind : target.isRequest = m.isRequest) (hchunked : m.isChunked = false)
    (hlong : defaultContentMax < m.contentLength) : ¬ m.Reserialised ord target := by
  obtain ⟨u, hu, hscan⟩ := scan_parsed ord hm hsize hkind
  have hframing := framing_sent ord hu (hm.headed.framed.trans hchunked) hsize
    (hm.implied hchunked)
  rw [if_neg (by omega)] at hframing
  obtain ⟨h, hparser⟩ := hu.parser
  have hfollows : u.bodyFollows = .indeterminate := by
    simp [bodyFollows, hparser, HTTPParser.new]
  set w := (u.startBody (.length m.contentLength)).2 with hw
  have hstart : u.startBody (.length m.contentLength) = (.indeterminate, w) :=
    congrArg (fun rc => (rc, w)) hfollows
  have hfinish : u.finishHeaderParsing = (.indeterminate, w) := by
    rw [finishHeaderParsing_eq, hframing, hstart]
  have hopen := finishHeaderParsing_open hfinish
  have hlength := m.length_getContent
  have hdone := scan_content_done (s := w) (u := []) rfl hlength
    (by rw [← List.length_pos_iff, hlength]; omega)
  rw [List.append_nil] at hdone
  rw [hfinish] at hscan
  simp only [settle, (scan_body hopen.1 hopen.2.1 _).trans hdone] at hscan
  refine HTTPMessage.not_reserialised_of_length hscan ?_
  rw [(conclude_yes_content _).1]
  show min m.contentLength u.parser.maxContentLength ≠ m.contentLength
  have hmax : u.parser.maxContentLength = defaultContentMax := by simp [hparser, HTTPParser.new]
  omega

end Session

/-- A message that the parser accepts is written and read back with the same first line and
the same content, if and only if it is not chunked and not longer than the default maximum. -/
theorem reserialise (ord : HashOrder) (kind : MessageKind) (chunksSupported saveRawHeaders : Bool)
    (maxContentLength : ℕ) (hmax : maxContentLength < sizeMod) (ec : ErrorCode)
    (pieces : List Bytes) (hpieces : ∀ w ∈ pieces, w ≠ []) (target : HTTPMessage) :
    let m0 : HTTPMessage := { kind := kind, chunksSupported := chunksSupported }
    let x := readAll (newSession m0.isRequest maxContentLength false saveRawHeaders m0 ec) pieces
    x.result = some .yes → target.isRequest = m0.isRequest →
      (x.state.msg.Reserialised ord target ↔
        x.state.msg.isChunked = false ∧ x.state.msg.contentLength ≤ defaultContentMax) := by
  intro m0 x hyes hkind
  set s := newSession m0.isRequest maxContentLength false saveRawHeaders m0 ec
  have hready : s.Ready := newSession_ready _ _ _ _ _ _
  have hread := Session.reading_newSession kind chunksSupported maxContentLength false
    saveRawHeaders ec
  have hone := readAll_eq_scan hready rfl hpieces
  simp only [observed, Prod.mk.injEq] at hone
  obtain ⟨hresult, -, -, hmsg⟩ := hone
  change x.state.msg = _ at hmsg
  have haccepted := Session.accepted_scan hread ⟨hready, by simp [Session.Stored, newSession,
    HTTPParser.new]⟩ (Or.inl (Or.inl rfl)) (hresult.symm.trans hyes)
  rw [← hmsg] at haccepted
  have hsize : x.state.msg.contentLength < sizeMod := haccepted.size.trans_lt hmax
  have hkind' : target.isRequest = x.state.msg.isRequest := hkind.trans haccepted.kind.symm
  constructor
  · intro hback
    have hchunked : x.state.msg.isChunked = false := by
      by_contra hnot
      exact Session.not_reserialised_chunked ord haccepted.parsed hsize hkind' (by simpa using hnot)
        hback
    refine ⟨hchunked, ?_⟩
    by_contra hlong
    exact Session.not_reserialised_long ord haccepted.parsed hsize hkind' hchunked (by omega) hback
  · rintro ⟨hchunked, hlong⟩
    exact HTTPMessage.reserialised_of_accepted ord haccepted hchunked hlong hkind'

/-- A request with content of a declared length. -/
theorem reserialise_request :
    let m0 : HTTPMessage := { kind := .request ⟨requestMethodGet, [], [], [], []⟩ }
    let x := readAll (newSession true defaultContentMax false false m0 .success)
      [ascii "PUT /a?b=c HTTP/1.1\r\nContent-Len", ascii "gth: 3\r\n\r\nab", ascii "cd"]
    x.state.msg.Reserialised .insertion (.newRequest []) ↔
      x.state.msg.isChunked = false ∧ x.state.msg.contentLength ≤ defaultContentMax :=
  reserialise .insertion (.request ⟨requestMethodGet, [], [], [], []⟩) false false
    defaultContentMax (by decide) .success _ (by decide) (.newRequest []) (by decide +kernel) rfl

/-- A chunked request is written with the header that announces chunks, but without chunks. -/
theorem reserialise_fails :
    let m0 : HTTPMessage := { kind := .request ⟨requestMethodGet, [], [], [], []⟩ }
    let x := readAll (newSession true defaultContentMax false false m0 .success)
      [ascii "PUT /a HTTP/1.1\r\nTransfer-Encoding: chunked\r\n\r\n3\r\nabc\r\n0\r\n\r\n"]
    x.result = some .yes ∧ x.state.msg.status = .statusOk ∧
      x.state.msg.contentCells = (ascii "abc").map some ∧
      ¬ x.state.msg.Reserialised .insertion (.newRequest []) :=
  ⟨by decide +kernel, by decide +kernel, by decide +kernel, by decide +kernel⟩

end PionCore.Net
