/-
# The responses of a login

What `HTTPCookieAuth::processLogin` answers is written by an `HTTPResponseWriter`.  The header
block that is written is parsed as the headers that were set, if and only if the location that
the client is sent to can stand in a header (`login_parsesBack`).  It is decoded from the
request, and nothing tests it for line breaks.
-/
import PionCore.Net.Accepted
import PionCore.Net.HTTPCookieAuth

namespace PionCore.Net

open PionCore.Lib PionCore.Common

/-! ### Header blocks -/

namespace Reply

/-- `HTTPResponseWriter::prepareBuffersForSend`, for a connection that is kept alive or not: the
header block, and the response behind it.  The response is sent in one piece. -/
def prepareBuffersForSend (ord : HashOrder) (keepAlive : Bool) (reply : Reply) :
    Bytes × HTTPMessage :=
  let m :=
    if reply.content.length > 0 then { reply.response with contentLength := reply.content.length }
    else reply.response
  m.prepareBuffersForSend ord keepAlive false

/-- A parser of responses that stops behind the headers. -/
def parseSession : Session :=
  newSession false defaultContentMax true false (.newResponse []) .success

/-- The header block is parsed as a response to its end, and gives the headers of the response. -/
def ParsesBack (ord : HashOrder) (keepAlive : Bool) (reply : Reply) : Prop :=
  let x := reply.prepareBuffersForSend ord keepAlive
  let y := readAll parseSession [x.1]
  y.result = some .yes ∧ y.rest = [] ∧ y.state.msg.headers.Same x.2.headers

end Reply

/-! ### Reading a header block -/

namespace Session

/-- A parser that only wants the headers has a result at their end. -/
lemma finishHeaderParsing_headersOnly {s : Session} (hs : s.parser.parseHeadersOnly = true)
    (hlength : framing s.parser.isRequest s.headed ≠ .invalidLength) :
    ∃ u : Session, s.finishHeaderParsing = (.yes, u) ∧ u.msg.headers = s.msg.headers := by
  have hfollows : s.bodyFollows = .yes := if_pos hs
  rw [finishHeaderParsing_eq]
  cases hf : framing s.parser.isRequest s.headed with
  | invalidLength => exact absurd hf hlength
  | empty => exact ⟨_, rfl, s.headers_headed⟩
  | chunked => exact ⟨_, congrArg (fun rc => (rc, _)) hfollows, s.headers_headed⟩
  | untilEof => exact ⟨_, congrArg (fun rc => (rc, _)) hfollows, s.headers_headed⟩
  | length n => exact ⟨_, congrArg (fun rc => (rc, _)) hfollows, s.headers_headed⟩

/-- The header block of a response with a content length is read to its end. -/
lemma scan_headersOnly {m m0 : HTTPMessage} {es : StringDictionary} (hline : m.LineOk)
    (hmajor : m.versionMajor < uint16Mod) (hminor : m.versionMinor < uint16Mod)
    (hes : ∀ e ∈ es, HeaderOk e) (hempty : m0.headers = []) {k : Bytes} {n : ℕ} (hn : n < sizeMod)
    (hlength : es.find headerContentLength = some (k, numeral 10 n)) (ec : ErrorCode) :
    ∃ v : Session, scan byteTurn (newSession m.isRequest defaultContentMax true false m0 ec)
        (m.updateFirstLine ++ (stringCRLF ++ (es.flatMap HTTPMessage.headerLine ++ stringCRLF))) =
        ⟨some .yes, [], v⟩ ∧ v.msg.headers = es := by
  obtain ⟨h, -, hscan⟩ := scan_header m0 hline hmajor hminor hes []
  rw [List.append_nil] at hscan
  set s := newSession m.isRequest defaultContentMax true false m0 ec
  have hstart : scan (parseHeadersChar s.parser.isRequest s.parser.saveRawHeaders)
      (s.parser.header, s.msg) (m.updateFirstLine ++ (stringCRLF ++
        (es.flatMap HTTPMessage.headerLine ++ stringCRLF))) =
      ⟨some .done, [], (h, m0.addHead m es)⟩ := hscan
  set u := s.atHeaders (h, m0.addHead m es)
  have hheaders : u.msg.headers = es := by
    show m0.headers ++ es = es
    rw [hempty, List.nil_append]
  have htrim : trim (numeral 10 n) = numeral 10 n :=
    trim_eq_self fun c hc => isSpace_of_isDigit (isDigit_of_mem_numeral hc)
  have hframing : framing u.parser.isRequest u.headed ≠ .invalidLength := by
    rw [framing]
    rw [headers_headed, hheaders, hlength]
    dsimp only
    rw [htrim, lexicalCast_numeral hn]
    split_ifs
    · simp
    · simp
    · cases n <;> simp
  obtain ⟨v, hv, hsame⟩ := finishHeaderParsing_headersOnly (s := u) rfl hframing
  refine ⟨(conclude .yes v).2, ?_, ?_⟩
  · rw [scan_headers (Or.inl rfl) (by simp [stringCRLF]), hstart]
    simp only [leavePhase, leaveHeaders]
    have hsettle : settle (s.atHeaders (h, m0.addHead m es)).finishHeaderParsing =
        .inl (conclude .yes v) := by
      rw [show s.atHeaders (h, m0.addHead m es) = u from rfl, hv]
      rfl
    rw [hsettle]
    rfl
  · have hhead := conclude_yes_head v
    exact ((Prod.mk.inj (Prod.mk.inj hhead).2).2.trans hsame).trans hheaders

end Session

/-! ### Replies -/

namespace Reply

/-- A reply whose header block can be written: all that is left to ask for is that its headers
can be read. -/
structure Plain (reply : Reply) : Prop where
  response : reply.response.isRequest = false
  line : reply.response.LineOk
  major : reply.response.versionMajor < uint16Mod
  minor : reply.response.versionMinor < uint16Mod
  fresh : reply.response.firstLine = []
  sendsLength : reply.response.doNotSendContentLength = false
  noContent : reply.response.contentLength = 0
  size : reply.content.length < sizeMod

/-- The headers that are sent. -/
def sentHeaders (keepAlive : Bool) (reply : Reply) : StringDictionary :=
  (reply.response.headers.changeValue headerConnection
    (if keepAlive then ascii "Keep-Alive" else ascii "close")).changeValue headerContentLength
      (numeral 10 reply.content.length)

variable {reply : Reply} (ord : HashOrder) (keepAlive : Bool)

/-- The header block, and the headers of the response behind it. -/
lemma prepareBuffersForSend_eq (h : reply.Plain) :
    (reply.prepareBuffersForSend ord keepAlive).1 = reply.response.updateFirstLine ++
      (stringCRLF ++ ((ord.walk (reply.sentHeaders keepAlive)).flatMap HTTPMessage.headerLine ++
        stringCRLF)) ∧
    (reply.prepareBuffersForSend ord keepAlive).2.headers = reply.sentHeaders keepAlive := by
  have hlength : (if reply.content.length > 0 then
      { reply.response with contentLength := reply.content.length } else reply.response) =
      { reply.response with contentLength := reply.content.length } := by
    split_ifs with hpos
    · rfl
    · rw [show reply.content.length = reply.response.contentLength by
        rw [h.noContent]
        omega]
  have hprepare : ({ reply.response with contentLength := reply.content.length } :
      HTTPMessage).prepareHeadersForSend keepAlive false =
      { reply.response with
        contentLength := reply.content.length, headers := reply.sentHeaders keepAlive } := by
    simp only [HTTPMessage.prepareHeadersForSend, HTTPMessage.changeHeader, h.sendsLength,
      sentHeaders]
    rfl
  simp only [prepareBuffersForSend, hlength, HTTPMessage.prepareBuffersForSend, hprepare]
  simp only [HTTPMessage.getFirstLine, h.fresh, if_true, HTTPMessage.appendHeaders,
    List.append_assoc]
  exact ⟨rfl, trivial⟩

/-- The headers that are not set by the writer are sent as they are. -/
lemma mem_sentHeaders {e : Bytes × Bytes}
    (hconnection : equalIgnoreCase e.1 headerConnection = false)
    (hlength : equalIgnoreCase e.1 headerContentLength = false) (he : e ∈ reply.response.headers) :
    e ∈ reply.sentHeaders keepAlive := by
  have hmem : e ∈ reply.response.headers.equalRange e.1 :=
    StringDictionary.mem_equalRange.2 ⟨he, equalIgnoreCase_self _⟩
  rw [← StringDictionary.equalRange_changeValue_of_ne hconnection,
    ← StringDictionary.equalRange_changeValue_of_ne hlength] at hmem
  exact (StringDictionary.mem_equalRange.1 hmem).1

/-- The block is read in one scan. -/
lemma reads_block (h : reply.Plain) :
    let block := (reply.prepareBuffersForSend ord keepAlive).1
    let x := readAll parseSession [block]
    let y := scan Session.byteTurn parseSession block
    x.result = y.result ∧ x.rest = y.rest ∧ x.state.msg = y.state.msg := by
  intro block x y
  have hne : block ≠ [] := by
    have hblock : block = _ := (prepareBuffersForSend_eq ord keepAlive h).1
    rw [hblock]
    simp [stringCRLF]
  have hread := readAll_piece_eq_scan (s := parseSession) (newSession_ready _ _ _ _ _ _) rfl hne
  simp only [observed, Prod.mk.injEq] at hread
  exact ⟨hread.1, hread.2.1, hread.2.2.2⟩

/-- A header block is parsed as the headers that were set, if they can be read. -/
lemma parsesBack_of_headerOk (h : reply.Plain) (hok : ∀ e ∈ reply.response.headers, HeaderOk e) :
    reply.ParsesBack ord keepAlive := by
  obtain ⟨hblock, hheaders⟩ := prepareBuffersForSend_eq ord keepAlive h
  have hsent : ∀ e ∈ reply.sentHeaders keepAlive, HeaderOk e := by
    refine HTTPMessage.headerOk_changeValue (HTTPMessage.headerOk_changeValue hok ?_)
      (HTTPMessage.headerOk_contentLength h.size)
    cases keepAlive <;> exact ⟨by decide, by decide, by decide, by decide⟩
  have hwalk : ∀ e ∈ ord.walk (reply.sentHeaders keepAlive), HeaderOk e :=
    fun e he => hsent e ((ord.mem_walk equalIgnoreCase_self).1 he)
  obtain ⟨k, -, hk⟩ := StringDictionary.equalRange_changeValue
    (reply.response.headers.changeValue headerConnection
      (if keepAlive then ascii "Keep-Alive" else ascii "close")) headerContentLength
    (numeral 10 reply.content.length)
  have hrange : StringDictionary.equalRange (ord.walk (reply.sentHeaders keepAlive))
      headerContentLength = (reply.sentHeaders keepAlive).equalRange headerContentLength :=
    ord.equalRange_walk _ _
  have hfind : StringDictionary.find (ord.walk (reply.sentHeaders keepAlive)) headerContentLength =
      some (k, numeral 10 reply.content.length) := by
    rw [StringDictionary.find_eq_head, hrange, sentHeaders, hk]
    rfl
  have hempty : (HTTPMessage.newResponse []).headers = [] := rfl
  obtain ⟨v, hscan, hv⟩ := Session.scan_headersOnly h.line h.major h.minor hwalk hempty h.size hfind
    .success
  rw [h.response, ← hblock] at hscan
  obtain ⟨hresult, hrest, hmsg⟩ := reads_block ord keepAlive h
  have hscan' : scan Session.byteTurn parseSession (reply.prepareBuffersForSend ord keepAlive).1 =
      ⟨some .yes, [], v⟩ := hscan
  rw [hscan'] at hresult hrest hmsg
  refine ⟨hresult, hrest, fun k => ?_⟩
  have hparsed := (congrArg HTTPMessage.headers hmsg).trans hv
  rw [hheaders, show StringDictionary.equalRange _ k = _ from
    congrArg (fun d => StringDictionary.equalRange d k) hparsed]
  exact ord.equalRange_walk k _

/-- What is parsed back can be read. -/
lemma headerOk_of_parsesBack (h : reply.Plain) (hback : reply.ParsesBack ord keepAlive) :
    ∀ e ∈ reply.sentHeaders keepAlive, HeaderOk e := by
  obtain ⟨hyes, -, hsame⟩ := hback
  obtain ⟨hresult, -, hmsg⟩ := reads_block ord keepAlive h
  have haccepted := Session.accepted_scan (s := parseSession)
    (Session.reading_newSession (HTTPMessage.newResponse []).kind false defaultContentMax true false
      .success)
    ⟨newSession_ready _ _ _ _ _ _, by simp [parseSession, Session.Stored, newSession,
      HTTPParser.new]⟩ (Or.inl (Or.inl rfl)) (hresult.symm.trans hyes)
  intro e he
  have hmem : e ∈ (reply.sentHeaders keepAlive).equalRange e.1 :=
    StringDictionary.mem_equalRange.2 ⟨he, equalIgnoreCase_self _⟩
  rw [← (prepareBuffersForSend_eq ord keepAlive h).2, ← hsame] at hmem
  have hparsed := (StringDictionary.mem_equalRange.1 hmem).1
  rw [show HTTPMessage.headers _ = _ from congrArg HTTPMessage.headers hmsg] at hparsed
  exact haccepted.parsed.headed.head.headers e hparsed

end Reply

/-! ### What a login answers -/

namespace HTTPMessage

variable (request : HTTPMessage) (statusCode : ℕ) (statusMessage : Bytes)

/-- A new response to a request, as far as the writer looks at it. -/
lemma respond_eq :
    (request.respond statusCode statusMessage).kind =
      .response ⟨statusCode % uintMod, statusMessage, request.getMethod⟩ ∧
    (request.respond statusCode statusMessage).headers = [] := by
  simp [respond, newResponse, updateRequestInfo, setStatusCode, setStatusMessage, clearFirstLine]

/-- Such a response can be written with any headers. -/
lemma plain_respond {headers : StringDictionary} {content : Bytes} (hcode : statusCode < uint16Mod)
    (htext : IsText statusMessage ∧ statusMessage.length ≤ statusMessageMax)
    (hsize : content.length < sizeMod) :
    Reply.Plain
      ⟨{ request.respond statusCode statusMessage with headers := headers }, content⟩ := by
  have hmod : statusCode % uintMod = statusCode := Nat.mod_eq_of_lt (lt_trans hcode (by decide))
  refine ⟨?_, ?_, ?_, ?_, ?_, ?_, ?_, hsize⟩
  · simp [isRequest, respond_eq]
  · simp only [LineOk, firstLineFields, respond_eq, hmod]
    exact ⟨hcode, htext⟩
  all_goals
    simp [respond, newResponse, updateRequestInfo, setStatusCode, setStatusMessage, clearFirstLine,
      uint16Mod]

end HTTPMessage

namespace HTTPCookieAuth

/-- The location that a login sends the client to; none if it is empty. -/
def location (a : HTTPCookieAuth) (request : HTTPMessage) : Bytes :=
  if stripTrailingSlash request.getResource = a.login ∧ a.loginUser request = none then a.redirect
  else urlDecode (request.getQuery (ascii "url"))

/-- A reply that sends a client to a location, perhaps with a cookie. -/
structure Redirects (reply : Reply) (location : Bytes) : Prop where
  plain : reply.Plain
  headers : ∃ cookies, (∀ e ∈ cookies, HeaderOk e) ∧
    reply.response.headers =
      (if location = [] then [] else [(headerLocation, location)]) ++ cookies

/-- The cookie that is set can be read. -/
lemma headerOk_setCookie (dice : Dice) :
    HeaderOk (headerSetCookie,
      makeSetCookieHeader authCookieName (base64Encode dice.1) [] none) := by
  have hlength : (base64Encode dice.1).length = 28 := by
    rw [length_base64Encode, dice.2]
    rfl
  have hcookie : IsText (base64Encode dice.1) := by
    intro c hc
    have hcode : ∀ n < 64, isControl (encodingData (UInt8.ofNat n)) = false := by decide +kernel
    rcases mem_base64Encode hc with rfl | ⟨d, hd, rfl⟩
    · rfl
    · have hd' := hcode d.toNat hd
      rwa [UInt8.ofNat_toNat] at hd'
  have hvalue : makeSetCookieHeader authCookieName (base64Encode dice.1) [] none =
      ascii "pion_session_id=\"" ++ base64Encode dice.1 ++ ascii "\"; Version=\"1\"" := by
    simp [makeSetCookieHeader, authCookieName, ascii]
  have hbefore : IsText (ascii "pion_session_id=\"") ∧ IsText (ascii "\"; Version=\"1\"") := by
    decide
  have hname : IsToken headerSetCookie ∧ headerSetCookie.length ≤ headerNameMax := by decide
  rw [hvalue]
  refine ⟨hname.1, hname.2, ?_, ?_⟩
  · intro c hc
    rcases List.mem_append.1 hc with hc | hc
    · rcases List.mem_append.1 hc with hc | hc
      · exact hbefore.1 c hc
      · exact hcookie c hc
    · exact hbefore.2 c hc
  · show (ascii "pion_session_id=\"" ++ base64Encode dice.1 ++ _).length ≤ headerValueMax
    rw [List.length_append, List.length_append, hlength]
    decide

/-- The cookies that are set with a response can be read. -/
lemma updateCookie_eq (m : HTTPMessage) {newCookie : Bytes}
    (h : newCookie = [] ∨ ∃ dice : Dice, newCookie = base64Encode dice.1) (deleteCookie : Bool) :
    ∃ cookies, (∀ e ∈ cookies, HeaderOk e) ∧
      updateCookie m newCookie deleteCookie = { m with headers := m.headers ++ cookies } := by
  have hdeleted : HeaderOk (headerSetCookie, makeSetCookieHeader authCookieName [] [] (some 0)) :=
    ⟨by decide, by decide, by decide, by decide⟩
  rw [updateCookie]
  split_ifs with hdelete hnew
  · exact ⟨[_], by simpa using hdeleted, rfl⟩
  · obtain ⟨dice, rfl⟩ := h.resolve_left hnew
    exact ⟨[_], by simpa using headerOk_setCookie dice, rfl⟩
  · exact ⟨[], by simp, by rw [List.append_nil]⟩

/-- The pages that are sent are short. -/
lemma length_content :
    redirectContent.length < sizeMod ∧ unauthorizedContent.length < sizeMod := by
  simp only [redirectContent, unauthorizedContent, ascii, String.toList_append, List.map_append,
    List.length_append, List.length_map]
  simp [sizeMod]

variable {request : HTTPMessage} {newCookie : Bytes}

lemma redirects_redirection {location : Bytes} (hlocation : location ≠ [])
    (h : newCookie = [] ∨ ∃ dice : Dice, newCookie = base64Encode dice.1) (deleteCookie : Bool) :
    Redirects (handleRedirection request location newCookie deleteCookie) location := by
  obtain ⟨cookies, hcookies, heq⟩ := updateCookie_eq ((request.respond responseCodeFound
    responseMessageFound).addHeader headerLocation location) h deleteCookie
  rw [handleRedirection, heq]
  refine ⟨HTTPMessage.plain_respond request _ _ (by decide) (by decide)
    length_content.1, cookies, hcookies, ?_⟩
  rw [if_neg hlocation]
  show (HTTPMessage.respond _ _ _).headers ++ [(headerLocation, location)] ++ cookies = _
  rw [(HTTPMessage.respond_eq _ _ _).2, List.nil_append]

lemma redirects_ok (h : newCookie = [] ∨ ∃ dice : Dice, newCookie = base64Encode dice.1)
    (deleteCookie : Bool) : Redirects (handleOk request newCookie deleteCookie) [] := by
  obtain ⟨cookies, hcookies, heq⟩ := updateCookie_eq (request.respond responseCodeNoContent
    responseMessageNoContent) h deleteCookie
  rw [handleOk, heq]
  refine ⟨HTTPMessage.plain_respond request _ _ (by decide) (by decide) (by decide), cookies,
    hcookies, ?_⟩
  rw [if_pos rfl]
  exact congrArg (· ++ cookies) (HTTPMessage.respond_eq _ _ _).2

lemma redirects_unauthorized (a : HTTPCookieAuth) :
    Redirects (a.handleUnauthorized request) a.redirect := by
  rw [handleUnauthorized]
  split_ifs with hredirect
  · exact redirects_redirection hredirect (Or.inl rfl) false
  · refine ⟨HTTPMessage.plain_respond request _ _ (by decide) (by decide)
      length_content.2, [], by simp, ?_⟩
    rw [not_not.1 hredirect, if_pos rfl]
    exact (HTTPMessage.respond_eq _ _ _).2

lemma redirects_answer (location : Bytes)
    (h : newCookie = [] ∨ ∃ dice : Dice, newCookie = base64Encode dice.1) (deleteCookie : Bool) :
    Redirects (answerLogin request location newCookie deleteCookie) location := by
  rw [answerLogin]
  split_ifs with hlocation
  · exact redirects_redirection hlocation h deleteCookie
  · rw [not_not.1 hlocation]
    exact redirects_ok h deleteCookie

/-- Every login and logout is answered with the location. -/
lemma redirects_processLogin {a a' : HTTPCookieAuth} {now : ℕ} {dice : Dice} {reply : Reply}
    (h : a.processLogin now dice request = some (reply, a')) :
    Redirects reply (a.location request) := by
  by_cases hlogin : stripTrailingSlash request.getResource = a.login
  · rw [processLogin_login a now dice request hlogin] at h
    cases huser : a.loginUser request with
    | none =>
      rw [huser] at h
      obtain ⟨rfl, -⟩ := Prod.mk.inj (Option.some.inj h)
      rw [location, if_pos ⟨hlogin, huser⟩]
      exact redirects_unauthorized a
    | some user =>
      rw [huser] at h
      obtain ⟨rfl, -⟩ := Prod.mk.inj (Option.some.inj h)
      rw [location, if_neg (by simp [huser])]
      exact redirects_answer _ (Or.inr ⟨dice, rfl⟩) false
  · by_cases hlogout : stripTrailingSlash request.getResource = a.logout
    · rw [processLogin_logout a now dice request hlogin hlogout] at h
      obtain ⟨rfl, -⟩ := Prod.mk.inj (Option.some.inj h)
      rw [location, if_neg (by simp [hlogin])]
      exact redirects_answer _ (Or.inl rfl) true
    · rw [processLogin_none a now dice request hlogin hlogout] at h
      cases h

/-- A location that is parsed back can stand in a header. -/
lemma location_of_parsesBack (ord : HashOrder) (keepAlive : Bool) {reply : Reply} {location : Bytes}
    (h : Redirects reply location) (hback : reply.ParsesBack ord keepAlive) :
    IsText location ∧ location.length ≤ headerValueMax := by
  obtain ⟨hplain, cookies, -, hheaders⟩ := h
  have hother : equalIgnoreCase headerLocation headerConnection = false ∧
      equalIgnoreCase headerLocation headerContentLength = false := by decide
  by_cases hnone : location = []
  · rw [hnone]
    exact ⟨by simp [IsText], by simp⟩
  · rw [if_neg hnone] at hheaders
    have hlocation : (headerLocation, location) ∈ reply.response.headers := by simp [hheaders]
    have hsent := Reply.mem_sentHeaders keepAlive hother.1 hother.2 hlocation
    have hok := Reply.headerOk_of_parsesBack ord keepAlive hplain hback _ hsent
    exact ⟨hok.value, hok.valueMax⟩

/-- The header block of an answer to a login is parsed as the headers that were set, if and only
if the location has no control characters and is not longer than a header may be. -/
theorem login_parsesBack (ord : HashOrder) (keepAlive : Bool) (a : HTTPCookieAuth) (now : ℕ)
    (dice : Dice) (request : HTTPMessage) {reply : Reply} {a' : HTTPCookieAuth}
    (h : a.processLogin now dice request = some (reply, a')) :
    reply.ParsesBack ord keepAlive ↔
      IsText (a.location request) ∧ (a.location request).length ≤ headerValueMax := by
  have hredirects := redirects_processLogin h
  constructor
  · exact location_of_parsesBack ord keepAlive hredirects
  · rintro ⟨htext, hmax⟩
    obtain ⟨hplain, cookies, hcookies, hheaders⟩ := hredirects
    have hname : IsToken headerLocation ∧ headerLocation.length ≤ headerNameMax := by decide
    refine Reply.parsesBack_of_headerOk ord keepAlive hplain fun e he => ?_
    rw [hheaders] at he
    rcases List.mem_append.1 he with he | he
    · split_ifs at he
      · cases he
      · rw [List.mem_singleton.1 he]
        exact ⟨hname.1, hname.2, htext, hmax⟩
    · exact hcookies e he

/-- A logout that sends the client on. -/
theorem login_parsesBack_logout :
    let a := new ⟨id, {}, 0⟩ (ascii "/login") (ascii "/logout") [] 0
    let request := cookieRequest (ascii "/logout") [] [(ascii "url", ascii "%2fbye")]
    (answerLogin request (urlDecode (request.getQuery (ascii "url"))) [] true).ParsesBack .insertion
        true ↔ IsText (a.location request) ∧ (a.location request).length ≤ headerValueMax :=
  login_parsesBack .insertion true (new ⟨id, {}, 0⟩ (ascii "/login") (ascii "/logout") [] 0) 10
    (sameDice 7) (cookieRequest (ascii "/logout") [] [(ascii "url", ascii "%2fbye")])
    (processLogin_logout _ _ _ _ (by decide +kernel) (by decide +kernel))

/-- An escaped line break in the query of a logout begins another header. -/
theorem login_parsesBack_fails :
    let a := new ⟨id, {}, 0⟩ (ascii "/login") (ascii "/logout") [] 0
    let request := cookieRequest (ascii "/logout") []
      [(ascii "url", ascii "/%0d%0aSet-Cookie:%20a=b")]
    ∃ reply a', a.processLogin 10 (sameDice 7) request = some (reply, a') ∧
      ¬ reply.ParsesBack .insertion true := by
  intro a request
  have hanswer := processLogin_logout a 10 (sameDice 7) request (by decide +kernel)
    (by decide +kernel)
  refine ⟨_, _, hanswer, fun hback => ?_⟩
  have htext := (location_of_parsesBack .insertion true (redirects_processLogin hanswer) hback).1
  revert htext
  decide +kernel

end HTTPCookieAuth

end PionCore.Net
