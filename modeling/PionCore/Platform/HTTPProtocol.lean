/-
# The HTTP protocol of a sniffer

`HTTPProtocol` reads the packets of both directions of a connection.  It has a parser for the
requests and one for the responses; when the request is finished the response gets to know of it,
and when the response is finished an event is made of both messages.  A response 100 (Continue) is
skipped: the parser of the responses starts again.

Times are a parameter.  What the extraction rules, and the fields for the user and for the address
of the client, get from the messages is a parameter as well.
-/
import PionCore.Lib.Runs
import PionCore.Net.Fragmentation

namespace PionCore.Platform

open PionCore.Lib PionCore.Net

/-- The data of a packet, or the length of the data that is missing. -/
inductive PacketData where
  | data (w : Bytes)
  | missing (len : ℕ)
deriving DecidableEq

/-- The arguments of `readNext`. -/
structure Packet (τ : Type*) where
  request : Bool
  data : PacketData
  dataTimestamp : τ
  ackTimestamp : τ

/-- The counters and the times of one direction; `none` is `not_a_date_time`. -/
structure Traffic (τ : Type*) where
  dataPackets : ℕ := 0
  missingPackets : ℕ := 0
  startTime : Option τ := none
  endTime : Option τ := none
  ackTime : Option τ := none

/-- An event, with what it has of the messages, and the packets and times of both directions. -/
structure ProtocolEvent (τ ρ : Type*) where
  csBytes : ℕ
  scBytes : ℕ
  bytes : ℕ
  status : ℕ
  comment : Bytes
  method : Bytes
  csHeaders : Bytes
  scHeaders : Bytes
  csVersion : Bytes
  uri : Bytes
  uriStem : Bytes
  uriQuery : Bytes
  request : Bytes
  cached : Bool
  requestStatus : DataStatus
  responseStatus : DataStatus
  extracted : ρ
  canceled : Bool := false
  refused : Bool := false
  cs : Traffic τ
  sc : Traffic τ

/-- An event without its packet counts and times. -/
def ProtocolEvent.fields {τ ρ : Type*} (e : ProtocolEvent τ ρ) : ProtocolEvent τ ρ :=
  { e with cs := {}, sc := {} }

/-- The parsers with their messages, and the traffic of both directions. -/
structure HTTPProtocol (τ : Type*) where
  request : Session
  response : Session
  cs : Traffic τ := {}
  sc : Traffic τ := {}

namespace HTTPProtocol

/-- `HTTPTypes::RESPONSE_CODE_CONTINUE` -/
def responseCodeContinue : ℕ := 100

/-- `HTTPTypes::RESPONSE_CODE_NOT_MODIFIED` -/
def responseCodeNotModified : ℕ := 304

def requestData (m : HTTPMessage) : RequestData :=
  match m.kind with
  | .request r => r
  | .response _ => ⟨[], [], [], [], []⟩

def responseData (m : HTTPMessage) : ResponseData :=
  match m.kind with
  | .request _ => ⟨0, [], []⟩
  | .response r => r

def getStatusCode (m : HTTPMessage) : ℕ := (responseData m).statusCode

/-- `HTTPProtocol()`, with the options of the configuration. -/
def new {τ : Type*} (maxRequestLength maxResponseLength : ℕ) (rawRequest rawResponse : Bool) :
    HTTPProtocol τ where
  request := newSession true maxRequestLength false rawRequest (.newRequest []) .success
  response :=
    newSession false maxResponseLength false rawResponse
      (((HTTPMessage.newResponse []).setStatusCode 0).setStatusMessage []) .success

variable {τ ρ : Type*}

/-- `reset` -/
def reset (p : HTTPProtocol τ) : HTTPProtocol τ where
  request := { p.request with parser := p.request.parser.reset, msg := p.request.msg.clear }
  response :=
    { p.response with
      parser := p.response.parser.reset
      msg := (p.response.msg.clear.setStatusCode 0).setStatusMessage [] }

/-! ### Events -/

/-- The parser counts the bytes, and keeps the headers if it is asked to. -/
def totalBytes (s : Session) : ℕ := s.parser.bytesTotalRead

def rawHeaders (s : Session) : Bytes := s.parser.header.rawHeaders

/-- The URI with its query. -/
def uri (r : RequestData) : Bytes :=
  if r.queryString = [] then r.resource else r.resource ++ [63] ++ r.queryString

/-- The sanity checks of the times: a direction without packets has the times of the other one. -/
def saneTimes [LT τ] [DecidableLT τ] (p : HTTPProtocol τ) : HTTPProtocol τ :=
  let p :=
    if p.cs.startTime.isNone then
      { p with cs := { p.cs with
        startTime := p.sc.startTime, endTime := p.sc.startTime, ackTime := p.sc.startTime } }
    else if p.sc.startTime.isNone then
      { p with sc := { p.sc with
        startTime := p.cs.endTime, endTime := p.cs.endTime, ackTime := p.cs.endTime } }
    else p
  match p.sc.ackTime, p.sc.endTime with
  | some ack, some last =>
    if ack < last then { p with sc := { p.sc with ackTime := some last } } else p
  | _, _ => p

/-- The protocol when an event has been generated: the first line of the request is cached. -/
def cacheFirstLine [LT τ] [DecidableLT τ] (p : HTTPProtocol τ) : HTTPProtocol τ :=
  { saneTimes p with request := { p.request with msg := p.request.msg.getFirstLine.2 } }

/-- `generateEvent` -/
def generateEvent [LT τ] [DecidableLT τ] (extract : HTTPMessage → HTTPMessage → ρ)
    (p : HTTPProtocol τ) : ProtocolEvent τ ρ where
  csBytes := totalBytes p.request
  scBytes := totalBytes p.response
  bytes := (totalBytes p.request + totalBytes p.response) % sizeMod
  status := getStatusCode p.response.msg
  comment := (responseData p.response.msg).statusMessage
  method := (requestData p.request.msg).method
  csHeaders := rawHeaders p.request
  scHeaders := rawHeaders p.response
  csVersion := p.request.msg.getVersionString
  uri := uri (requestData p.request.msg)
  uriStem := (requestData p.request.msg).resource
  uriQuery := (requestData p.request.msg).queryString
  request := p.request.msg.getFirstLine.1
  cached := getStatusCode p.response.msg = responseCodeNotModified
  requestStatus := p.request.msg.status
  responseStatus := p.response.msg.status
  extracted := extract p.request.msg.getFirstLine.2 p.response.msg
  cs := (saneTimes p).cs
  sc := (saneTimes p).sc

/-! ### Packets -/

/-- A packet of data, or missing data. -/
def parsePacket (s : Session) : PacketData → Tribool × Session
  | .data w => (s.setReadBuffer w).parse
  | .missing len => s.parseMissingData len

/-- The counter and the times behind a packet. -/
def countPacket [LT τ] [DecidableLT τ] (t : Traffic τ) (k : Packet τ) : Traffic τ :=
  match k.data with
  | .missing _ => { t with missingPackets := (t.missingPackets + 1) % uintMod }
  | .data _ =>
    let t := { t with dataPackets := (t.dataPackets + 1) % uintMod }
    match t.startTime, t.endTime with
    | none, _ =>
      { t with
        startTime := some k.dataTimestamp
        endTime := some k.dataTimestamp
        ackTime := some k.ackTimestamp }
    | some _, some last =>
      if last < k.dataTimestamp then
        { t with endTime := some k.dataTimestamp, ackTime := some k.ackTimestamp }
      else t
    | some _, none => t

/-- `HTTPParser::skipHeaderParsing`, which has an error code of its own. -/
def skipHeaderParsing (s : Session) : Session := { s.finishHeaderParsing.2 with ec := s.ec }

/-- The response gets to know of the finished request; without a version, all of the response is
content. -/
def prepareResponse (response : Session) (request : HTTPMessage) : Session :=
  let r : Session := { response with
    msg := response.msg.updateRequestInfo (requestData request).method request.versionMajor
      request.versionMinor }
  if request.versionMajor = 0 then
    skipHeaderParsing { r with msg := (r.msg.setStatusCode 0).setStatusMessage [] }
  else r

/-- The parser of the responses starts again. -/
def restart (s : Session) : Session := { s with parser := s.parser.reset, msg := s.msg.clear }

variable [LT τ] [DecidableLT τ]

/-- A response is finished: it is skipped, or an event is generated. -/
def finishResponse (extract : HTTPMessage → HTTPMessage → ρ) (p : HTTPProtocol τ) :
    Tribool × HTTPProtocol τ × Option (ProtocolEvent τ ρ) :=
  if getStatusCode p.response.msg = responseCodeContinue then
    (.indeterminate, { p with response := restart p.response, sc := {} }, none)
  else if p.request.msg.isValid then
    (.yes, cacheFirstLine p, some (generateEvent extract p))
  else (.no, p, none)

/-- `readNext`: the result, the protocol behind the call, and the event. -/
def readNext (extract : HTTPMessage → HTTPMessage → ρ) (p : HTTPProtocol τ) (k : Packet τ) :
    Tribool × HTTPProtocol τ × Option (ProtocolEvent τ ρ) :=
  if k.request then
    let x := parsePacket p.request k.data
    let p' := { p with request := x.2, cs := countPacket p.cs k }
    if x.1 = .yes then
      (.indeterminate, { p' with response := prepareResponse p.response x.2.msg }, none)
    else (x.1, p', none)
  else
    let x := parsePacket p.response k.data
    let p' := { p with response := x.2, sc := countPacket p.sc k }
    if x.1 = .yes then finishResponse extract p' else (x.1, p', none)

/-- A message that is not valid is finished when the connection is closed. -/
def finishMessage (s : Session) : Session :=
  if s.msg.isValid then s else { s with msg := finish s.parser s.msg }

/-- `close`: the result, and the event. -/
def close (extract : HTTPMessage → HTTPMessage → ρ) (clientReset serverReset : Bool)
    (p : HTTPProtocol τ) : Bool × Option (ProtocolEvent τ ρ) :=
  let p := { p with request := finishMessage p.request, response := finishMessage p.response }
  let result := p.request.msg.isValid && p.response.msg.isValid
  if totalBytes p.request = 0 then (result, none)
  else
    let e := generateEvent extract p
    if result then (true, some e)
    else if clientReset then (true, some { e with canceled := true })
    else if serverReset then (true, some { e with refused := true })
    else (false, some e)

/-! ### Runs -/

/-- The protocol and the events so far; a call that fails ends the run. -/
def step (extract : HTTPMessage → HTTPMessage → ρ)
    (s : HTTPProtocol τ × List (ProtocolEvent τ ρ)) (k : Packet τ) :
    Option (HTTPProtocol τ × List (ProtocolEvent τ ρ)) :=
  match readNext extract s.1 k with
  | (.no, _, _) => none
  | (_, p, e) => some (p, s.2 ++ e.toList)

/-- The packets carry the bytes of a stream, in the direction of the requests or of the
responses. -/
def Carries (request : Bool) (packets : List (Packet τ)) (pieces : List Bytes) : Prop :=
  packets.map (fun k => (k.request, k.data)) = pieces.map fun w => (request, .data w)

end HTTPProtocol

end PionCore.Platform
