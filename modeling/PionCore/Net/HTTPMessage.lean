/-
# HTTP messages

`HTTPMessage` and its two subclasses `HTTPRequest` and `HTTPResponse`, as one structure
whose field `kind` holds the members of the subclass.  Numbers are natural numbers
reduced modulo the size of the C++ type where they are stored.  The content buffer is a
block of memory whose cells may be unset; `wildWrite` is a ghost member that records
whether any write ever missed the block that was allocated at that moment.
-/
import PionCore.Net.HTTPTypes
import PionCore.Lib.Memory

namespace PionCore.Net

open PionCore.Lib

/-- The number of values of a `size_t`. -/
def sizeMod : ℕ := 2 ^ 64

lemma mod_sizeMod_lt (n : ℕ) : n % sizeMod < sizeMod := Nat.mod_lt n (by decide)

/-- The number of values of a `boost::uint16_t`. -/
def uint16Mod : ℕ := 2 ^ 16

/-- The number of values of an `unsigned int`. -/
def uintMod : ℕ := 2 ^ 32

/-- `HTTPMessage::DataStatus`. -/
inductive DataStatus where
  /-- no data received (i.e. all lost) -/
  | statusNone
  /-- one or more missing packets at the end -/
  | statusTruncated
  /-- one or more missing packets but NOT at the end -/
  | statusPartial
  /-- no missing packets -/
  | statusOk
deriving DecidableEq

/-- The members of `HTTPRequest`. -/
@[ext]
structure RequestData where
  method : Bytes
  resource : Bytes
  originalResource : Bytes
  queryString : Bytes
  queryParams : StringDictionary
deriving DecidableEq

/-- The members of `HTTPResponse`. -/
@[ext]
structure ResponseData where
  statusCode : ℕ
  statusMessage : Bytes
  /-- the method of the request that is responded to -/
  requestMethod : Bytes
deriving DecidableEq

/-- The subclass of a message. -/
inductive MessageKind where
  | request (r : RequestData)
  | response (r : ResponseData)
deriving DecidableEq

@[ext]
structure HTTPMessage where
  kind : MessageKind
  firstLine : Bytes := []
  isValid : Bool := false
  isChunked : Bool := false
  chunksSupported : Bool := false
  doNotSendContentLength : Bool := false
  versionMajor : ℕ := 1
  versionMinor : ℕ := 1
  contentLength : ℕ := 0
  contentBuf : Option (List (Option Byte)) := none
  chunkCache : Bytes := []
  headers : StringDictionary := []
  cookieParams : StringDictionary := []
  status : DataStatus := .statusNone
  hasMissingPackets : Bool := false
  hasDataAfterMissing : Bool := false
  wildWrite : Bool := false
deriving DecidableEq

namespace HTTPMessage

/-! ### Construction -/

/-- `HTTPRequest(resource)`; the default constructor has an empty resource. -/
def newRequest (resource : Bytes) : HTTPMessage where
  kind := .request ⟨requestMethodGet, resource, [], [], []⟩

/-- `HTTPResponse(request_method)`; the default constructor has an empty method. -/
def newResponse (requestMethod : Bytes) : HTTPMessage where
  kind := .response ⟨responseCodeOk, responseMessageOk, requestMethod⟩

def isRequest (m : HTTPMessage) : Bool :=
  match m.kind with
  | .request _ => true
  | .response _ => false

/-- `clear` of the subclass.  The ghost member survives. -/
def clear (m : HTTPMessage) : HTTPMessage :=
  match m.kind with
  | .request _ => { kind := .request ⟨[], [], [], [], []⟩, wildWrite := m.wildWrite }
  | .response _ =>
      { kind := .response ⟨responseCodeOk, responseMessageOk, []⟩, wildWrite := m.wildWrite }

/-! ### The first line -/

def clearFirstLine (m : HTTPMessage) : HTTPMessage := { m with firstLine := [] }

def getVersionString (m : HTTPMessage) : Bytes :=
  stringHttpVersion ++ numeral 10 m.versionMajor ++ [46] ++ numeral 10 m.versionMinor

/-- The line that `updateFirstLine` of the subclass builds. -/
def updateFirstLine (m : HTTPMessage) : Bytes :=
  match m.kind with
  | .request r =>
      r.method ++ [32] ++ r.resource
        ++ (if r.queryString = [] then [] else [63] ++ r.queryString)
        ++ [32] ++ m.getVersionString
  | .response r =>
      m.getVersionString ++ [32] ++ numeral 10 r.statusCode ++ [32] ++ r.statusMessage

/-- `getFirstLine` builds the line only if none is cached; the cache is `mutable`. -/
def getFirstLine (m : HTTPMessage) : Bytes × HTTPMessage :=
  if m.firstLine = [] then (m.updateFirstLine, { m with firstLine := m.updateFirstLine })
  else (m.firstLine, m)

def setVersionMajor (m : HTTPMessage) (n : ℕ) : HTTPMessage :=
  { m with versionMajor := n % uint16Mod }.clearFirstLine

def setVersionMinor (m : HTTPMessage) (n : ℕ) : HTTPMessage :=
  { m with versionMinor := n % uint16Mod }.clearFirstLine

/-! ### Members of `HTTPRequest`

A `dynamic_cast` to the other subclass throws; the parser is only used with messages of
its own kind, and these functions leave the other kind alone. -/

def setMethod (m : HTTPMessage) (s : Bytes) : HTTPMessage :=
  match m.kind with
  | .request r => { m with kind := .request { r with method := s } }.clearFirstLine
  | .response _ => m

def setResource (m : HTTPMessage) (s : Bytes) : HTTPMessage :=
  match m.kind with
  | .request r =>
      { m with kind := .request { r with resource := s, originalResource := s } }.clearFirstLine
  | .response _ => m

/-- `changeResource` keeps the cached first line. -/
def changeResource (m : HTTPMessage) (s : Bytes) : HTTPMessage :=
  match m.kind with
  | .request r => { m with kind := .request { r with resource := s } }
  | .response _ => m

def setQueryString (m : HTTPMessage) (s : Bytes) : HTTPMessage :=
  match m.kind with
  | .request r => { m with kind := .request { r with queryString := s } }.clearFirstLine
  | .response _ => m

def setQueryParams (m : HTTPMessage) (d : StringDictionary) : HTTPMessage :=
  match m.kind with
  | .request r => { m with kind := .request { r with queryParams := d } }
  | .response _ => m

def getQueryParams (m : HTTPMessage) : StringDictionary :=
  match m.kind with
  | .request r => r.queryParams
  | .response _ => []

/-! ### Members of `HTTPResponse` -/

def setStatusCode (m : HTTPMessage) (n : ℕ) : HTTPMessage :=
  match m.kind with
  | .request _ => m
  | .response r =>
      { m with kind := .response { r with statusCode := n % uintMod } }.clearFirstLine

def setStatusMessage (m : HTTPMessage) (s : Bytes) : HTTPMessage :=
  match m.kind with
  | .request _ => m
  | .response r => { m with kind := .response { r with statusMessage := s } }.clearFirstLine

/-- `updateRequestInfo`, with the method and the version of the request. -/
def updateRequestInfo (m : HTTPMessage) (method : Bytes) (major minor : ℕ) : HTTPMessage :=
  match m.kind with
  | .request _ => m
  | .response r =>
      { m with
        kind := .response { r with requestMethod := method }
        chunksSupported := (major = 1 ∧ minor ≥ 1) ∨ m.chunksSupported }

/-- The content length of a request is never implied, that of some responses is. -/
def isContentLengthImplied (m : HTTPMessage) : Bool :=
  match m.kind with
  | .request _ => false
  | .response r =>
      r.requestMethod = requestMethodHead
        ∨ 100 ≤ r.statusCode ∧ r.statusCode ≤ 199
        ∨ r.statusCode = 204 ∨ r.statusCode = 205 ∨ r.statusCode = 304

/-! ### Headers -/

def addHeader (m : HTTPMessage) (k v : Bytes) : HTTPMessage :=
  { m with headers := m.headers.insert k v }

def changeHeader (m : HTTPMessage) (k v : Bytes) : HTTPMessage :=
  { m with headers := m.headers.changeValue k v }

def deleteHeader (m : HTTPMessage) (k : Bytes) : HTTPMessage :=
  { m with headers := m.headers.deleteValue k }

def hasHeader (m : HTTPMessage) (k : Bytes) : Bool := (m.headers.find k).isSome

def getHeader (m : HTTPMessage) (k : Bytes) : Bytes := m.headers.getValue k

/-- `updateContentLengthUsingHeader`; `none` when the cast throws. -/
def updateContentLengthUsingHeader (m : HTTPMessage) : Option HTTPMessage :=
  match m.headers.find headerContentLength with
  | none => some { m with contentLength := 0 }
  | some e => (lexicalCast sizeMod (trim e.2)).map fun n => { m with contentLength := n }

/-- `updateTransferCodingUsingHeader`: a match of `.*chunked.*`, ignoring case. -/
def updateTransferCodingUsingHeader (m : HTTPMessage) : HTTPMessage :=
  match m.headers.find headerTransferEncoding with
  | none => { m with isChunked := false }
  | some e => { m with isChunked := containsIgnoreCase e.2 (ascii "chunked") }

/-! ### Content -/

/-- Copy a word into the content buffer; without a buffer every cell is missed. -/
def writeContent (m : HTTPMessage) (i : ℕ) (w : Bytes) : HTTPMessage :=
  { m with
    contentBuf := m.contentBuf.map fun cells => Memory.write cells i w
    wildWrite := m.wildWrite || ! decide (Memory.Fits (m.contentBuf.getD []) i w) }

/-- `createContentBuffer`: `m_content_length + 1` cells, in `size_t` arithmetic, and a zero
in the last one. -/
def createContentBuffer (m : HTTPMessage) : HTTPMessage :=
  { m with
    contentBuf := some (List.replicate ((m.contentLength + 1) % sizeMod) none) }.writeContent
      m.contentLength [0]

/-- The cells of the content: the first `m_content_length` ones. -/
def contentCells (m : HTTPMessage) : List (Option Byte) :=
  (List.range m.contentLength).map fun i => ((m.contentBuf.getD [])[i]?).join

/-- The bytes found in the content; a cell that was never written reads as zero here. -/
def getContent (m : HTTPMessage) : Bytes := m.contentCells.map fun c => c.getD 0

def setContent (m : HTTPMessage) (content : Bytes) : HTTPMessage :=
  ({ m with contentLength := content.length }.createContentBuffer).writeContent 0 content

def clearContent (m : HTTPMessage) : HTTPMessage :=
  { m with contentLength := 0 }.createContentBuffer.deleteHeader headerContentType

/-- Pieces together all the received chunks. -/
def concatenateChunks (m : HTTPMessage) : HTTPMessage :=
  ({ m with contentLength := m.chunkCache.length }.createContentBuffer).writeContent 0
    m.chunkCache

/-! ### Sending -/

/-- `prepareHeadersForSend`. -/
def prepareHeadersForSend (m : HTTPMessage) (keepAlive usingChunks : Bool) : HTTPMessage :=
  let m := m.changeHeader headerConnection (if keepAlive then ascii "Keep-Alive" else ascii "close")
  if usingChunks then
    if m.chunksSupported then m.changeHeader headerTransferEncoding (ascii "chunked") else m
  else if ! m.doNotSendContentLength then
    m.changeHeader headerContentLength (numeral 10 m.contentLength)
  else m

/-- The text of one header. -/
def headerLine (e : Bytes × Bytes) : Bytes :=
  e.1 ++ headerNameValueDelimiter ++ e.2 ++ stringCRLF

/-- The buffers appended by `appendHeaders`, one behind the other. -/
def appendHeaders (ord : HashOrder) (m : HTTPMessage) : Bytes :=
  (ord.walk m.headers).flatMap headerLine ++ stringCRLF

/-- The buffers of `prepareBuffersForSend`, one behind the other. -/
def prepareBuffersForSend (ord : HashOrder) (m : HTTPMessage) (keepAlive usingChunks : Bool) :
    Bytes × HTTPMessage :=
  let m := m.prepareHeadersForSend keepAlive usingChunks
  let (line, m) := m.getFirstLine
  (line ++ stringCRLF ++ m.appendHeaders ord, m)

/-- `HTTPMessage::write` of headers and content. -/
def write (ord : HashOrder) (m : HTTPMessage) (headersOnly : Bool) : Bytes × HTTPMessage :=
  let (out, m) := m.prepareBuffersForSend ord true false
  if ! headersOnly ∧ m.contentLength > 0 ∧ m.contentBuf ≠ none then (out ++ m.getContent, m)
  else (out, m)

end HTTPMessage

end PionCore.Net
