/-
# The HTTP parser

`HTTPParser`: the header machine, the chunk machine and the content counter, with the
members that carry them from one call to the next; those that belong to one of the two
machines alone are kept together in `HeaderMachine` and `ChunkMachine`.  The read buffer
is the list of bytes between `m_read_ptr` and `m_read_end_ptr`.  A call works on a
`Session`: the parser, the message it fills in and the error code of the caller.
-/
import PionCore.Net.HTTPMessage
import PionCore.Lib.Scan

namespace PionCore.Net

open PionCore.Lib

/-! ### Error codes -/

/-- `HTTPParser::ErrorValue`. -/
inductive ErrorValue where
  | methodChar | methodSize | uriChar | uriSize | queryChar | querySize
  | versionEmpty | versionChar | statusEmpty | statusChar
  | headerChar | headerNameSize | headerValueSize
  | invalidContentLength | chunkChar
  | missingChunkData | missingHeaderData | missingTooMuchContent
deriving DecidableEq

/-- `boost::system::error_code`: no error, one of the parser's category, or an input
error. -/
inductive ErrorCode where
  | success
  | parser (ev : ErrorValue)
  | ioError
deriving DecidableEq

/-- `boost::tribool`. -/
inductive Tribool where
  | no
  | yes
  | indeterminate
deriving DecidableEq

/-! ### Limits -/

def statusMessageMax : ℕ := 1024
def methodMax : ℕ := 1024
def resourceMax : ℕ := 256 * 1024
def queryStringMax : ℕ := 1024 * 1024
def headerNameMax : ℕ := 1024
def headerValueMax : ℕ := 1024 * 1024
def queryNameMax : ℕ := 1024
def queryValueMax : ℕ := 1024 * 1024
def cookieNameMax : ℕ := 1024
def cookieValueMax : ℕ := 1024 * 1024
def defaultContentMax : ℕ := 1024 * 1024

/-- The greatest value `strtol` returns. -/
def longMax : ℕ := 2 ^ 63 - 1

/-! ### Character classes

`char` is signed where the parser was written for; the bytes from 128 on are negative
there and belong to none of the classes. -/

def isChar (c : Byte) : Bool := c ≤ 127

def isControl (c : Byte) : Bool := c ≤ 31 ∨ c = 127

/-- One of `( ) < > @ , ; : \ " / [ ] ? = { }`, a blank or a tab. -/
def isSpecial (c : Byte) : Bool :=
  c ∈ ([40, 41, 60, 62, 64, 44, 59, 58, 92, 34, 47, 91, 93, 63, 61, 123, 125, 32, 9] : Bytes)

/-- The test made on every byte of a method or header name. -/
def badTokenChar (c : Byte) : Bool := ! isChar c || isControl c || isSpecial c

def isCookieAttribute (name : Bytes) (setCookieHeader : Bool) : Bool :=
  name = [] ∨ name.head? = some 36 ∨ setCookieHeader = true ∧
    name ∈ [ascii "Comment", ascii "Domain", ascii "Max-Age", ascii "Path", ascii "Secure",
      ascii "Version", ascii "Expires"]

/-! ### Query strings and cookie headers -/

/-- The local variables of `parseURLEncoded`. -/
structure QueryParse where
  /-- `QUERY_PARSE_VALUE` instead of `QUERY_PARSE_NAME` -/
  inValue : Bool := false
  name : Bytes := []
  value : Bytes := []
  dict : StringDictionary

def parseURLEncodedChar (q : QueryParse) (c : Byte) : Turn QueryParse Unit :=
  if ! q.inValue then
    if c = 61 then .next { q with inValue := true }
    else if c = 38 then
      if q.name ≠ [] then .next { q with dict := q.dict.insert q.name q.value, name := [] }
      else .next q
    else if c = 13 ∨ c = 10 ∨ c = 9 then .next q
    else if isControl c ∨ q.name.length ≥ queryNameMax then .stop false () q
    else .next { q with name := q.name ++ [c] }
  else
    if c = 38 then
      let dict := if q.name ≠ [] then q.dict.insert q.name q.value else q.dict
      .next { q with dict := dict, name := [], value := [], inValue := false }
    else if c = 13 ∨ c = 10 ∨ c = 9 then .next q
    else if isControl c ∨ q.value.length ≥ queryValueMax then .stop false () q
    else .next { q with value := q.value ++ [c] }

/-- `parseURLEncoded`: the result, and the dictionary with the pairs found. -/
def parseURLEncoded (dict : StringDictionary) (s : Bytes) : Bool × StringDictionary :=
  let r := scan parseURLEncodedChar { dict := dict } s
  match r.result with
  | some _ => (false, r.state.dict)
  | none =>
      if r.state.name ≠ [] then (true, r.state.dict.insert r.state.name r.state.value)
      else (true, r.state.dict)

/-- `parse_state` of `parseCookieHeader`. -/
inductive CookieParseState where
  | cookieParseName | cookieParseValue | cookieParseIgnore
deriving DecidableEq

/-- The local variables of `parseCookieHeader`. -/
structure CookieParse where
  parseState : CookieParseState := .cookieParseName
  name : Bytes := []
  value : Bytes := []
  /-- zero as long as the value is not quoted -/
  valueQuoteCharacter : Byte := 0
  dict : StringDictionary

/-- The dictionary with the cookie read so far, unless it is an attribute. -/
def CookieParse.store (q : CookieParse) (setCookieHeader : Bool) : StringDictionary :=
  if isCookieAttribute q.name setCookieHeader then q.dict else q.dict.insert q.name q.value

def parseCookieChar (setCookieHeader : Bool) (q : CookieParse) (c : Byte) :
    Turn CookieParse Unit :=
  match q.parseState with
  | .cookieParseName =>
      if c = 61 then .next { q with valueQuoteCharacter := 0, parseState := .cookieParseValue }
      else if c = 59 ∨ c = 44 then
        if q.name ≠ [] then .next { q with dict := q.store setCookieHeader, name := [] }
        else .next q
      else if c ≠ 32 then
        if isControl c ∨ q.name.length ≥ cookieNameMax then .stop false () q
        else .next { q with name := q.name ++ [c] }
      else .next q
  | .cookieParseValue =>
      if q.valueQuoteCharacter = 0 then
        if c = 59 ∨ c = 44 then
          .next { q with
            dict := q.store setCookieHeader, name := [], value := []
            parseState := .cookieParseName }
        else if c = 39 ∨ c = 34 then
          if q.value = [] then .next { q with valueQuoteCharacter := c }
          else if q.value.length ≥ cookieValueMax then .stop false () q
          else .next { q with value := q.value ++ [c] }
        else if c ≠ 32 ∨ q.value ≠ [] then
          if isControl c ∨ q.value.length ≥ cookieValueMax then .stop false () q
          else .next { q with value := q.value ++ [c] }
        else .next q
      else if c = q.valueQuoteCharacter then
        .next { q with
          dict := q.store setCookieHeader, name := [], value := []
          parseState := .cookieParseIgnore }
      else if q.value.length ≥ cookieValueMax then .stop false () q
      else .next { q with value := q.value ++ [c] }
  | .cookieParseIgnore =>
      if c = 59 ∨ c = 44 then .next { q with parseState := .cookieParseName } else .next q

/-- `parseCookieHeader`: the result, and the dictionary with the cookies found. -/
def parseCookieHeader (dict : StringDictionary) (s : Bytes) (setCookieHeader : Bool) :
    Bool × StringDictionary :=
  let r := scan (parseCookieChar setCookieHeader) { dict := dict } s
  match r.result with
  | some _ => (false, r.state.dict)
  | none => (true, r.state.store setCookieHeader)

/-! ### The parser -/

/-- `HTTPParser::MessageParseState`. -/
inductive MessageParseState where
  | parseStart | parseHeaders | parseContent | parseContentNoLength | parseChunks | parseEnd
deriving DecidableEq

/-- `HTTPParser::HeadersParseState`. -/
inductive HeadersParseState where
  | parseMethodStart | parseMethod | parseUriStem | parseUriQuery
  | parseHttpVersionH | parseHttpVersionT1 | parseHttpVersionT2
  | parseHttpVersionP | parseHttpVersionSlash
  | parseHttpVersionMajorStart | parseHttpVersionMajor
  | parseHttpVersionMinorStart | parseHttpVersionMinor
  | parseStatusCodeStart | parseStatusCode | parseStatusMessage
  | parseExpectingNewline | parseExpectingCr
  | parseHeaderWhitespace | parseHeaderStart | parseHeaderName
  | parseSpaceBeforeHeaderValue | parseHeaderValue
  | parseExpectingFinalNewline | parseExpectingFinalCr
deriving DecidableEq

/-- `HTTPParser::ChunkedContentParseState`. -/
inductive ChunkedContentParseState where
  | parseChunkSizeStart | parseChunkSize
  | parseExpectingCrAfterChunkSize | parseExpectingLfAfterChunkSize | parseChunk
  | parseExpectingCrAfterChunk | parseExpectingLfAfterChunk
  | parseExpectingFinalCrAfterLastChunk | parseExpectingFinalLfAfterLastChunk
deriving DecidableEq

/-- The members that only the header machine writes. -/
@[ext]
structure HeaderMachine where
  headersParseState : HeadersParseState
  statusCode : ℕ := 0
  statusMessage : Bytes := []
  method : Bytes := []
  resource : Bytes := []
  queryString : Bytes := []
  rawHeaders : Bytes := []
  headerName : Bytes := []
  headerValue : Bytes := []
deriving DecidableEq

/-- The members that only the chunk machine writes.  The constructor does not initialise
the last two. -/
@[ext]
structure ChunkMachine where
  chunkedContentParseState : ChunkedContentParseState := .parseChunkSizeStart
  chunkSizeStr : Bytes := []
  sizeOfCurrentChunk : ℕ := 0
  bytesReadInCurrentChunk : ℕ := 0
deriving DecidableEq

@[ext]
structure HTTPParser where
  isRequest : Bool
  readBuf : Bytes := []
  messageParseState : MessageParseState := .parseStart
  header : HeaderMachine
  chunk : ChunkMachine := {}
  bytesContentRemaining : ℕ := 0
  bytesContentRead : ℕ := 0
  bytesLastRead : ℕ := 0
  bytesTotalRead : ℕ := 0
  maxContentLength : ℕ
  parseHeadersOnly : Bool := false
  saveRawHeaders : Bool := false
deriving DecidableEq

/-- The state of the header machine before the first byte. -/
def initialHeadersState (isRequest : Bool) : HeadersParseState :=
  if isRequest then .parseMethodStart else .parseHttpVersionH

namespace HTTPParser

/-- The constructor `HTTPParser(is_request, max_content_length)`, together with the two
options that are set on the new object. -/
def new (isRequest : Bool) (maxContentLength : ℕ) (parseHeadersOnly saveRawHeaders : Bool) :
    HTTPParser where
  isRequest := isRequest
  header := { headersParseState := initialHeadersState isRequest }
  maxContentLength := maxContentLength
  parseHeadersOnly := parseHeadersOnly
  saveRawHeaders := saveRawHeaders

def setReadBuffer (p : HTTPParser) (w : Bytes) : HTTPParser := { p with readBuf := w }

def eof (p : HTTPParser) : Bool := p.readBuf = []

/-- `reset`: the members that are not named keep their values. -/
def reset (p : HTTPParser) : HTTPParser :=
  { p with
    messageParseState := .parseStart
    header := { p.header with
      headersParseState := initialHeadersState p.isRequest
      statusCode := 0
      statusMessage := []
      method := []
      resource := []
      queryString := []
      rawHeaders := [] }
    chunk := { p.chunk with chunkedContentParseState := .parseChunkSizeStart }
    bytesContentRead := 0
    bytesLastRead := 0
    bytesTotalRead := 0 }

end HTTPParser

/-- What ends the loop over the headers or the chunks: `return true`, or `return false`
with the error set before it, if any. -/
inductive LoopEnd where
  | done
  | failed (ev : Option ErrorValue)
deriving DecidableEq

/-! ### The header machine -/

abbrev HeaderTurn : Type := Turn (HeaderMachine × HTTPMessage) LoopEnd

/-- The tests common to the states in which a header name may begin. -/
def parseHeaderNameStart (p : HeaderMachine) (m : HTTPMessage) (c : Byte) : HeaderTurn :=
  if c = 9 ∨ c = 32 then .next ({ p with headersParseState := .parseHeaderWhitespace }, m)
  else if badTokenChar c then .stop false (.failed (some .headerChar)) (p, m)
  else .next ({ p with headerName := [c], headersParseState := .parseHeaderName }, m)

/-- One of the letters of `HTTP/`. -/
def parseHttpLetter (p : HeaderMachine) (m : HTTPMessage) (c letter : Byte)
    (st : HeadersParseState) : HeaderTurn :=
  if c ≠ letter then .stop false (.failed (some .versionChar)) (p, m)
  else .next ({ p with headersParseState := st }, m)

/-- The `switch` over the state of the header machine. -/
def parseHeadersSwitch (isRequest : Bool) (p : HeaderMachine) (m : HTTPMessage) (c : Byte) :
    HeaderTurn :=
  let fail (ev : ErrorValue) : HeaderTurn := .stop false (.failed (some ev)) (p, m)
  let goto (st : HeadersParseState) : HeaderTurn := .next ({ p with headersParseState := st }, m)
  match p.headersParseState with
  | .parseMethodStart =>
      if c ≠ 32 ∧ c ≠ 13 ∧ c ≠ 10 then
        if badTokenChar c then fail .methodChar
        else .next ({ p with headersParseState := .parseMethod, method := [c] }, m)
      else .next (p, m)
  | .parseMethod =>
      if c = 32 then .next ({ p with resource := [], headersParseState := .parseUriStem }, m)
      else if badTokenChar c then fail .methodChar
      else if p.method.length ≥ methodMax then fail .methodSize
      else .next ({ p with method := p.method ++ [c] }, m)
  | .parseUriStem =>
      if c = 32 then goto .parseHttpVersionH
      else if c = 63 then
        .next ({ p with queryString := [], headersParseState := .parseUriQuery }, m)
      else if c = 13 then
        .next ({ p with headersParseState := .parseExpectingNewline },
          (m.setVersionMajor 0).setVersionMinor 0)
      else if c = 10 then
        .next ({ p with headersParseState := .parseExpectingCr },
          (m.setVersionMajor 0).setVersionMinor 0)
      else if isControl c then fail .uriChar
      else if p.resource.length ≥ resourceMax then fail .uriSize
      else .next ({ p with resource := p.resource ++ [c] }, m)
  | .parseUriQuery =>
      if c = 32 then goto .parseHttpVersionH
      else if isControl c then fail .queryChar
      else if p.queryString.length ≥ queryStringMax then fail .querySize
      else .next ({ p with queryString := p.queryString ++ [c] }, m)
  | .parseHttpVersionH =>
      -- after a line end the state is overwritten by the assignment behind the `if`
      if c = 13 ∨ c = 10 then
        if ! isRequest then fail .versionEmpty
        else
          .next ({ p with headersParseState := .parseHttpVersionT1 },
            (m.setVersionMajor 0).setVersionMinor 0)
      else parseHttpLetter p m c 72 .parseHttpVersionT1
  | .parseHttpVersionT1 => parseHttpLetter p m c 84 .parseHttpVersionT2
  | .parseHttpVersionT2 => parseHttpLetter p m c 84 .parseHttpVersionP
  | .parseHttpVersionP => parseHttpLetter p m c 80 .parseHttpVersionSlash
  | .parseHttpVersionSlash => parseHttpLetter p m c 47 .parseHttpVersionMajorStart
  | .parseHttpVersionMajorStart =>
      if ! isDigit c then fail .versionChar
      else
        .next ({ p with headersParseState := .parseHttpVersionMajor },
          m.setVersionMajor (digitVal c))
  | .parseHttpVersionMajor =>
      if c = 46 then goto .parseHttpVersionMinorStart
      else if isDigit c then .next (p, m.setVersionMajor (m.versionMajor * 10 + digitVal c))
      else fail .versionChar
  | .parseHttpVersionMinorStart =>
      if ! isDigit c then fail .versionChar
      else
        .next ({ p with headersParseState := .parseHttpVersionMinor },
          m.setVersionMinor (digitVal c))
  | .parseHttpVersionMinor =>
      if c = 32 then
        if ! isRequest then goto .parseStatusCodeStart else .next (p, m)
      else if c = 13 then
        if ! isRequest then fail .statusEmpty else goto .parseExpectingNewline
      else if c = 10 then
        if ! isRequest then fail .statusEmpty else goto .parseExpectingCr
      else if isDigit c then .next (p, m.setVersionMinor (m.versionMinor * 10 + digitVal c))
      else fail .versionChar
  | .parseStatusCodeStart =>
      if ! isDigit c then fail .statusChar
      else
        .next ({ p with statusCode := digitVal c, headersParseState := .parseStatusCode }, m)
  | .parseStatusCode =>
      if c = 32 then
        .next ({ p with statusMessage := [], headersParseState := .parseStatusMessage }, m)
      else if isDigit c then
        .next ({ p with statusCode := (p.statusCode * 10 + digitVal c) % uint16Mod }, m)
      else if c = 13 then
        .next ({ p with statusMessage := [], headersParseState := .parseExpectingNewline }, m)
      else if c = 10 then
        .next ({ p with statusMessage := [], headersParseState := .parseExpectingCr }, m)
      else fail .statusChar
  | .parseStatusMessage =>
      if c = 13 then goto .parseExpectingNewline
      else if c = 10 then goto .parseExpectingCr
      else if isControl c then fail .statusChar
      else if p.statusMessage.length ≥ statusMessageMax then fail .statusChar
      else .next ({ p with statusMessage := p.statusMessage ++ [c] }, m)
  | .parseExpectingNewline =>
      if c = 10 then goto .parseHeaderStart
      else if c = 13 then .stop true .done (p, m)
      else parseHeaderNameStart p m c
  | .parseExpectingCr =>
      if c = 13 then goto .parseHeaderStart
      else if c = 10 then .stop true .done (p, m)
      else parseHeaderNameStart p m c
  | .parseHeaderWhitespace =>
      if c = 13 then goto .parseExpectingNewline
      else if c = 10 then goto .parseExpectingCr
      else if c ≠ 9 ∧ c ≠ 32 then
        -- only the call of `setError` depends on the test of the character
        if badTokenChar c then fail .headerChar else .stop false (.failed none) (p, m)
      else .next (p, m)
  | .parseHeaderStart =>
      if c = 13 then goto .parseExpectingFinalNewline
      else if c = 10 then goto .parseExpectingFinalCr
      else parseHeaderNameStart p m c
  | .parseHeaderName =>
      if c = 58 then
        .next ({ p with headerValue := [], headersParseState := .parseSpaceBeforeHeaderValue }, m)
      else if badTokenChar c then fail .headerChar
      else if p.headerName.length ≥ headerNameMax then fail .headerNameSize
      else .next ({ p with headerName := p.headerName ++ [c] }, m)
  | .parseSpaceBeforeHeaderValue =>
      if c = 32 then goto .parseHeaderValue
      else if c = 13 then
        .next ({ p with headersParseState := .parseExpectingNewline },
          m.addHeader p.headerName p.headerValue)
      else if c = 10 then
        .next ({ p with headersParseState := .parseExpectingCr },
          m.addHeader p.headerName p.headerValue)
      else if badTokenChar c then fail .headerChar
      else
        .next ({ p with
          headerValue := p.headerValue ++ [c], headersParseState := .parseHeaderValue }, m)
  | .parseHeaderValue =>
      if c = 13 then
        .next ({ p with headersParseState := .parseExpectingNewline },
          m.addHeader p.headerName p.headerValue)
      else if c = 10 then
        .next ({ p with headersParseState := .parseExpectingCr },
          m.addHeader p.headerName p.headerValue)
      else if isControl c then fail .headerChar
      else if p.headerValue.length ≥ headerValueMax then fail .headerValueSize
      else .next ({ p with headerValue := p.headerValue ++ [c] }, m)
  | .parseExpectingFinalNewline => .stop (c = 10) .done (p, m)
  | .parseExpectingFinalCr => .stop (c = 13) .done (p, m)

/-- The byte is added to the raw headers, if they are saved. -/
def saveRawHeader (saveRawHeaders : Bool) (p : HeaderMachine) (c : Byte) : HeaderMachine :=
  if saveRawHeaders then { p with rawHeaders := p.rawHeaders ++ [c] } else p

/-- One turn of the loop of `parseHeaders`. -/
def parseHeadersChar (isRequest saveRawHeaders : Bool) (s : HeaderMachine × HTTPMessage)
    (c : Byte) : HeaderTurn :=
  parseHeadersSwitch isRequest (saveRawHeader saveRawHeaders s.1 c) s.2 c

/-! ### The chunk machine -/

abbrev ChunkTurn : Type := Turn (ChunkMachine × Bytes) LoopEnd

/-- A byte that has to be there, and the state behind it. -/
def parseExpected (p : ChunkMachine) (cache : Bytes) (c expected : Byte)
    (st : ChunkedContentParseState) : ChunkTurn :=
  if c = expected then .next ({ p with chunkedContentParseState := st }, cache)
  else .stop false (.failed (some .chunkChar)) (p, cache)

/-- One turn of the loop of `parseChunks`, over the machine and the chunk cache. -/
def parseChunksChar (maxContentLength : ℕ) (s : ChunkMachine × Bytes) (c : Byte) : ChunkTurn :=
  let p := s.1
  let cache := s.2
  let fail : ChunkTurn := .stop false (.failed (some .chunkChar)) (p, cache)
  match p.chunkedContentParseState with
  | .parseChunkSizeStart =>
      if isHexDigit c then
        .next ({ p with chunkSizeStr := [c], chunkedContentParseState := .parseChunkSize }, cache)
      else if c = 32 ∨ c = 9 ∨ c = 13 ∨ c = 10 then .next (p, cache)
      else fail
  | .parseChunkSize =>
      if isHexDigit c then .next ({ p with chunkSizeStr := p.chunkSizeStr ++ [c] }, cache)
      else if c = 13 then
        .next ({ p with chunkedContentParseState := .parseExpectingLfAfterChunkSize }, cache)
      else if c = 32 ∨ c = 9 then
        .next ({ p with chunkedContentParseState := .parseExpectingCrAfterChunkSize }, cache)
      else fail
  | .parseExpectingCrAfterChunkSize =>
      if c = 13 then
        .next ({ p with chunkedContentParseState := .parseExpectingLfAfterChunkSize }, cache)
      else if c = 32 ∨ c = 9 then .next (p, cache)
      else fail
  | .parseExpectingLfAfterChunkSize =>
      if c = 10 then
        let size := min (readNumeral 16 p.chunkSizeStr) longMax
        .next ({ p with
          bytesReadInCurrentChunk := 0
          sizeOfCurrentChunk := size
          chunkedContentParseState :=
            if size = 0 then .parseExpectingFinalCrAfterLastChunk else .parseChunk }, cache)
      else fail
  | .parseChunk =>
      let inside := p.bytesReadInCurrentChunk < p.sizeOfCurrentChunk
      let cache := if inside ∧ cache.length < maxContentLength then cache ++ [c] else cache
      let read :=
        if inside then p.bytesReadInCurrentChunk + 1 else p.bytesReadInCurrentChunk
      .next ({ p with
        bytesReadInCurrentChunk := read
        chunkedContentParseState :=
          if read = p.sizeOfCurrentChunk then .parseExpectingCrAfterChunk else .parseChunk }, cache)
  | .parseExpectingCrAfterChunk => parseExpected p cache c 13 .parseExpectingLfAfterChunk
  | .parseExpectingLfAfterChunk => parseExpected p cache c 10 .parseChunkSizeStart
  | .parseExpectingFinalCrAfterLastChunk =>
      parseExpected p cache c 13 .parseExpectingFinalLfAfterLastChunk
  | .parseExpectingFinalLfAfterLastChunk => if c = 10 then .stop true .done (p, cache) else fail

/-! ### Filling in the message -/

/-- The cookies of the headers of one name. -/
def parseCookieHeaders (m : HTTPMessage) (name : Bytes) (setCookieHeader : Bool) : HTTPMessage :=
  { m with
    cookieParams := (m.headers.equalRange name).foldl
      (fun dict e => (parseCookieHeader dict e.2 setCookieHeader).2) m.cookieParams }

/-- `updateMessageWithHeaderData`.  A query or cookie that does not parse is only logged. -/
def updateMessageWithHeaderData (isRequest : Bool) (p : HeaderMachine) (m : HTTPMessage) :
    HTTPMessage :=
  if isRequest then
    let m := ((m.setMethod p.method).setResource p.resource).setQueryString p.queryString
    let m :=
      if p.queryString ≠ [] then
        m.setQueryParams (parseURLEncoded m.getQueryParams p.queryString).2
      else m
    parseCookieHeaders m headerCookie false
  else
    let m := (m.setStatusCode p.statusCode).setStatusMessage p.statusMessage
    parseCookieHeaders m headerSetCookie true

/-- `computeMsgStatus`. -/
def computeMsgStatus (m : HTTPMessage) (msgParsedOk : Bool) : HTTPMessage :=
  { m with
    status :=
      if m.hasMissingPackets then
        if m.hasDataAfterMissing then .statusPartial else .statusTruncated
      else if msgParsedOk then .statusOk else .statusTruncated }

/-- The last part of `finish`: the pairs of a form that was posted. -/
def parsePostContent (isRequest : Bool) (m : HTTPMessage) : HTTPMessage :=
  if isRequest ∧ contentTypeUrlencoded.isPrefixOf (m.getHeader headerContentType) then
    m.setQueryParams (parseURLEncoded m.getQueryParams m.getContent).2
  else m

/-- `finish`. -/
def finish (p : HTTPParser) (m : HTTPMessage) : HTTPMessage :=
  let complete (m : HTTPMessage) := parsePostContent p.isRequest (computeMsgStatus m m.isValid)
  match p.messageParseState with
  | .parseStart => { m with isValid := false, contentLength := 0 }.createContentBuffer
  | .parseEnd => complete { m with isValid := true }
  | .parseHeaders =>
      let m := updateMessageWithHeaderData p.isRequest p.header { m with isValid := false }
      complete { m with contentLength := 0 }.createContentBuffer
  | .parseContent =>
      complete { m with
        isValid := false
        contentLength :=
          if p.bytesContentRead < p.maxContentLength then p.bytesContentRead
          else m.contentLength }
  | .parseChunks =>
      let ended : Bool := p.chunk.chunkedContentParseState = .parseChunkSizeStart
      complete { m with isValid := ended }.concatenateChunks
  | .parseContentNoLength => complete { m with isValid := true }.concatenateChunks

/-! ### Calls of the parser -/

/-- A parser, the message it fills in and the error code of the caller. -/
@[ext]
structure Session where
  parser : HTTPParser
  msg : HTTPMessage
  ec : ErrorCode
deriving DecidableEq

namespace Session

/-- `setReadBuffer`. -/
def setReadBuffer (s : Session) (w : Bytes) : Session :=
  { s with parser := s.parser.setReadBuffer w }

/-- The session behind a loop: the bytes read are counted unless the loop failed. -/
def afterLoop (s : Session) (p : HTTPParser) (m : HTTPMessage) (rest : Bytes)
    (content : Bool) (r : Option LoopEnd) : Tribool × Session :=
  let read := s.parser.readBuf.length - rest.length
  let counted : HTTPParser := { p with
    readBuf := rest
    bytesLastRead := read
    bytesTotalRead := (p.bytesTotalRead + read) % sizeMod
    bytesContentRead :=
      if content then (p.bytesContentRead + read) % sizeMod else p.bytesContentRead }
  let failed : HTTPParser := { p with readBuf := rest, bytesLastRead := 0 }
  match r with
  | none => (.indeterminate, ⟨counted, m, s.ec⟩)
  | some .done => (.yes, ⟨counted, m, s.ec⟩)
  | some (.failed none) => (.no, ⟨failed, m, s.ec⟩)
  | some (.failed (some ev)) => (.no, ⟨failed, m, .parser ev⟩)

def parseHeaders (s : Session) : Tribool × Session :=
  let p := s.parser
  let r := scan (parseHeadersChar p.isRequest p.saveRawHeaders) (p.header, s.msg) p.readBuf
  s.afterLoop { p with header := r.state.1 } r.state.2 r.rest false r.result

def parseChunks (s : Session) : Tribool × Session :=
  let p := s.parser
  let r := scan (parseChunksChar p.maxContentLength) (p.chunk, s.msg.chunkCache) p.readBuf
  s.afterLoop { p with chunk := r.state.1 } { s.msg with chunkCache := r.state.2 } r.rest true
    r.result

/-- `finishHeaderParsing`. -/
def finishHeaderParsing (s : Session) : Tribool × Session :=
  let p : HTTPParser := { s.parser with bytesContentRemaining := 0, bytesContentRead := 0 }
  let m := { s.msg with contentLength := 0 }.updateTransferCodingUsingHeader
  let m := updateMessageWithHeaderData p.isRequest p.header m
  let finished (rc : Tribool) (st : MessageParseState) (p : HTTPParser) (m : HTTPMessage) :
      Tribool × Session :=
    (rc, ⟨{ p with messageParseState := st }, m.createContentBuffer, s.ec⟩)
  let headersOnly : Tribool := if p.parseHeadersOnly then .yes else .indeterminate
  if m.isChunked then finished headersOnly .parseChunks p m
  else if m.isContentLengthImplied then finished .yes .parseEnd p m
  else if m.hasHeader headerContentLength then
    match m.updateContentLengthUsingHeader with
    | none => (.no, ⟨p, m, .parser .invalidContentLength⟩)
    | some m =>
        if m.contentLength = 0 then finished .yes .parseEnd p m
        else
          finished headersOnly .parseContent
            { p with bytesContentRemaining := m.contentLength }
            { m with contentLength := min m.contentLength p.maxContentLength }
  else if ! p.isRequest then
    finished headersOnly .parseContentNoLength p { m with chunkCache := [] }
  else finished .yes .parseEnd p m

/-- `consumeContent`.  The sum of the counters is taken in `size_t`. -/
def consumeContent (s : Session) : Tribool × Session :=
  let p := s.parser
  if p.bytesContentRemaining = 0 then (.yes, s)
  else
    let rc : Tribool :=
      if p.readBuf.length ≥ p.bytesContentRemaining then .yes else .indeterminate
    let toRead := min p.readBuf.length p.bytesContentRemaining
    let copied :=
      if p.bytesContentRead < p.maxContentLength then
        if (p.bytesContentRead + toRead) % sizeMod > p.maxContentLength then
          p.maxContentLength - p.bytesContentRead
        else toRead
      else 0
    (rc, { s with
      parser := { p with
        readBuf := p.readBuf.drop toRead
        bytesContentRemaining := p.bytesContentRemaining - toRead
        bytesContentRead := (p.bytesContentRead + toRead) % sizeMod
        bytesTotalRead := (p.bytesTotalRead + toRead) % sizeMod
        bytesLastRead := toRead }
      msg := s.msg.writeContent p.bytesContentRead (p.readBuf.take copied) })

/-- `consumeContentAsNextChunk`: the loop adds bytes to the cache until it is full. -/
def consumeContentAsNextChunk (s : Session) : Session :=
  let p := s.parser
  let read := p.readBuf.length
  { s with
    parser := { p with
      readBuf := []
      bytesLastRead := read
      bytesTotalRead := (p.bytesTotalRead + read) % sizeMod
      bytesContentRead := (p.bytesContentRead + read) % sizeMod }
    msg := { s.msg with
      chunkCache :=
        s.msg.chunkCache ++ p.readBuf.take (p.maxContentLength - s.msg.chunkCache.length) } }

/-- One pass of the `do` loop of `parse`. -/
def parseRound (s : Session) : Tribool × Session :=
  match s.parser.messageParseState with
  | .parseStart | .parseHeaders =>
      let s := { s with parser := { s.parser with messageParseState := .parseHeaders } }
      let (rc, s) := s.parseHeaders
      if rc = .yes then s.finishHeaderParsing else (rc, s)
  | .parseChunks =>
      let (rc, s) := s.parseChunks
      if rc = .yes then (rc, { s with msg := s.msg.concatenateChunks }) else (rc, s)
  | .parseContent => s.consumeContent
  | .parseContentNoLength => (.indeterminate, s.consumeContentAsNextChunk)
  | .parseEnd => (.yes, s)

/-- The `do` loop of `parse`, with the sum of `m_bytes_last_read` over the passes. -/
def parseLoop : ℕ → ℕ → Session → Tribool × ℕ × Session
  | 0, total, s => (.indeterminate, total, s)
  | n + 1, total, s =>
      let (rc, s') := s.parseRound
      let total :=
        if s.parser.messageParseState = .parseEnd then total else total + s'.parser.bytesLastRead
      if rc = .indeterminate ∧ ! s'.parser.eof then parseLoop n total s' else (rc, total, s')

/-- What `parse` and `parseMissingData` do with the result at their end. -/
def conclude (rc : Tribool) (s : Session) : Tribool × Session :=
  match rc with
  | .yes =>
      let p : HTTPParser := { s.parser with messageParseState := .parseEnd }
      (.yes, { s with parser := p, msg := finish p s.msg })
  | .no => (.no, { s with msg := computeMsgStatus s.msg false })
  | .indeterminate => (.indeterminate, s)

/-- The passes a call of `parse` can make: the headers, and then the content. -/
def maxRounds : ℕ := 2

/-- The message takes a note of data that comes after missing packets. -/
def markData (s : Session) : Session :=
  if s.msg.hasMissingPackets then { s with msg := { s.msg with hasDataAfterMissing := true } }
  else s

/-- `HTTPParser::parse`. -/
def parse (s : Session) : Tribool × Session :=
  let (rc, total, s) := parseLoop maxRounds 0 s.markData
  let (rc, s) := conclude rc s
  (rc, { s with parser := { s.parser with bytesLastRead := total } })

/-- `MISSING_DATA_CHAR`, an `X`. -/
def missingDataChar : Byte := 88

/-- The chunk cache with dummy content for missing data: the loop stops when it is full. -/
def cacheMissing (cache : Bytes) (len maxContentLength : ℕ) : Bytes :=
  cache ++ List.replicate (min len (maxContentLength - cache.length)) missingDataChar

/-- The counters behind missing content data. -/
def countMissing (p : HTTPParser) (len : ℕ) : HTTPParser :=
  { p with
    bytesLastRead := len
    bytesTotalRead := (p.bytesTotalRead + len) % sizeMod
    bytesContentRead := (p.bytesContentRead + len) % sizeMod }

/-- The `switch` of `parseMissingData`. -/
def missingRound (s : Session) (len : ℕ) : Tribool × Session :=
  let p := s.parser
  let fail (ev : ErrorValue) : Tribool × Session := (.no, { s with ec := .parser ev })
  match p.messageParseState with
  | .parseStart | .parseHeaders => fail .missingHeaderData
  | .parseChunks =>
      let h := p.chunk
      if h.chunkedContentParseState = .parseChunk
          ∧ h.bytesReadInCurrentChunk < h.sizeOfCurrentChunk
          ∧ h.sizeOfCurrentChunk - h.bytesReadInCurrentChunk ≥ len then
        let read := h.bytesReadInCurrentChunk + len
        (.indeterminate, { s with
          parser := { countMissing p len with
            chunk := { h with
              bytesReadInCurrentChunk := read
              chunkedContentParseState :=
                if read = h.sizeOfCurrentChunk then .parseExpectingCrAfterChunk
                else h.chunkedContentParseState } }
          msg := { s.msg with
            chunkCache := cacheMissing s.msg.chunkCache len p.maxContentLength } })
      else fail .missingChunkData
  | .parseContent =>
      if p.bytesContentRemaining = 0 then (.yes, s)
      else if p.bytesContentRemaining < len then fail .missingTooMuchContent
      else
        -- the content is filled only if all of the missing data fits
        let m :=
          if (p.bytesContentRead + len) % sizeMod ≤ p.maxContentLength then
            s.msg.writeContent p.bytesContentRead (List.replicate len missingDataChar)
          else s.msg
        let remaining := p.bytesContentRemaining - len
        (if remaining = 0 then .yes else .indeterminate, { s with
          parser := { countMissing p len with bytesContentRemaining := remaining }
          msg := m })
  | .parseContentNoLength =>
      (.indeterminate, { s with
        parser := countMissing p len
        msg := { s.msg with
          chunkCache := cacheMissing s.msg.chunkCache len p.maxContentLength } })
  | .parseEnd => (.yes, s)

/-- `HTTPParser::parseMissingData`. -/
def parseMissingData (s : Session) (len : ℕ) : Tribool × Session :=
  let s := { s with msg := { s.msg with hasMissingPackets := true } }
  let (rc, s) := s.missingRound len
  conclude rc s

/-- `checkPrematureEOF`: true if the end of the input was premature. -/
def checkPrematureEOF (s : Session) : Bool × Session :=
  if s.parser.messageParseState ≠ .parseContentNoLength then (true, s)
  else
    let p : HTTPParser := { s.parser with messageParseState := .parseEnd }
    (false, { s with parser := p, msg := finish p s.msg.concatenateChunks })

end Session

end PionCore.Net
