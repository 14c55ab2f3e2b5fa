/-
# Clones of an HTTP protocol

The factory keeps one `HTTPProtocol` for each configuration, and gives clones of it away.  A clone
has parsers of its own, but the extraction rules are shared: they are objects with a reference to
the protocol that was configured, and look there for two of its settings.

The regular expressions, the decoders and the conversions of character sets are a parameter.
-/
import PionCore.Common.PionAlgorithms
import PionCore.Platform.HTTPProtocol
import PionCore.Platform.Vocabulary
import Mathlib.Logic.Function.Basic

namespace PionCore.Platform

open PionCore.Lib PionCore.Common PionCore.Net

/-! ### Extraction rules -/

/-- `HTTPProtocol::ExtractionSource`. -/
inductive ExtractionSource where
  | query | cookie | csCookie | scCookie | csHeader | scHeader
  | csContent | scContent | csRawContent | scRawContent
deriving DecidableEq

/-- An extraction rule, without the reference and the flag that change; `none` is an empty regular
expression. -/
structure ExtractionRule where
  term : Term
  source : ExtractionSource
  name : Bytes := []
  format : Bytes := []
  matchRegex : Option Bytes := none
  typeRegex : Option Bytes := none
  maxSize : ℕ := uintMod - 1
  maxExtracts : ℕ := 1
deriving DecidableEq

/-- What becomes of the content when its encoding is undone. -/
inductive Decoding where
  | plain
  | decoded (w : Bytes)
  | failed
deriving DecidableEq

/-- The libraries that extraction uses. -/
structure ExtractionLibrary where
  /-- a regular expression that can be compiled -/
  isRegex : Bytes → Bool
  /-- `regex_search`; `none` if it throws -/
  search : Bytes → Bytes → Option Bool
  /-- the texts that a rule formats from the matches in a text, and whether a search throws -/
  formatMatches : ExtractionRule → Bool → Bytes → List Bytes × Bool
  /-- the value that `setTruncatedString` makes of a text that is, or may not be, UTF-8 -/
  truncate : ℕ → Bool → Bytes → Bytes
  /-- `tryDecoding` -/
  tryDecoding : HTTPMessage → Decoding
  /-- the character set in the content type, and the one in the meta tags of a text -/
  charsetOfType : Bytes → Bytes
  charsetOfContent : Bytes → Bytes
  isUtf8 : Bytes → Bool
  /-- `tryConvertingToUtf8` -/
  convert : Bytes → Bytes → Option Bytes
  /-- a text made valid UTF-8 -/
  cleanse : Bytes → Bytes

/-- The settings of a protocol that its rules look up. -/
structure ContentFlags where
  allowUtf8Conversion : Bool
  allowSearchingContentForCharset : Bool
deriving DecidableEq

/-- A rule, with what is found behind its reference: `none` if the protocol has been destroyed. -/
structure RuleView where
  rule : ExtractionRule
  running : Bool
  parent : Option ContentFlags

/-- What a rule extracts: the values, whether it fails, and the final content of the message; `none`
if the rule looks behind a reference to a protocol that is gone. -/
abbrev Extracted : Type := Option (List Bytes × Bool × Option Bytes)

namespace ExtractionRule

variable (lib : ExtractionLibrary) (r : ExtractionRule)

/-- The loop over the matches in a text; without an expression the whole text is extracted. -/
def extracts (utf8 : Bool) (text : Bytes) : List Bytes × Bool :=
  match r.matchRegex with
  | none => ([lib.truncate r.maxSize utf8 text], false)
  | some _ =>
    ((lib.formatMatches r utf8 text).1.map (lib.truncate r.maxSize utf8),
      (lib.formatMatches r utf8 text).2)

/-- A failure is handled by the protocol that the rule belongs to. -/
def orFailure (parent : Option ContentFlags) (x : List Bytes × Bool) (cache : Option Bytes) :
    Extracted :=
  if x.2 = true ∧ parent = none then none else some (x.1, x.2, cache)

/-- `process`, for the values of a dictionary. -/
def process (urlDecoded : Bool) : List Bytes → List Bytes × Bool
  | [] => ([], false)
  | value :: values =>
    let text := if urlDecoded then urlDecode value else value
    if r.maxSize > 0 ∧ text ≠ [] then
      let x := r.extracts lib false text
      if x.2 then x
      else (x.1 ++ (process urlDecoded values).1, (process urlDecoded values).2)
    else process urlDecoded values

/-- The content type is one that the rule is for; `none` if the search throws. -/
def matchesType (m : HTTPMessage) : Option Bool :=
  match r.typeRegex with
  | none => some true
  | some regex => lib.search regex (m.getHeader headerContentType)

/-- `processRawContent` -/
def processRawContent (m : HTTPMessage) : List Bytes × Bool :=
  if r.maxSize > 0 ∧ m.contentLength > 0 then
    match r.matchesType lib m with
    | none => ([], true)
    | some false => ([], false)
    | some true => r.extracts lib false m.getContent
  else ([], false)

/-- The character set that the content is converted from, if it is converted. -/
def charset (flags : ContentFlags) (type body : Bytes) : Option Bytes :=
  if flags.allowUtf8Conversion then
    let found := lib.charsetOfType type
    let found :=
      if flags.allowSearchingContentForCharset ∧ found = [] ∧ (ascii "text/html").isPrefixOf type
      then lib.charsetOfContent body else found
    if found ≠ [] ∧ lib.isUtf8 found = false then some found else none
  else none

/-- The content behind decoding and conversion. -/
def finalContent (flags : ContentFlags) (m : HTTPMessage) : Bytes :=
  let convert (body : Bytes) : Bytes :=
    match charset lib flags (m.getHeader headerContentType) body with
    | some set => (lib.convert set body).getD (lib.cleanse body)
    | none => lib.cleanse body
  match lib.tryDecoding m with
  | .plain => convert m.getContent
  | .decoded body => convert body
  | .failed => lib.cleanse m.getContent

/-- `processContent`; the settings are only looked up by the first rule that needs the content. -/
def processContent (parent : Option ContentFlags) (cache : Option Bytes) (m : HTTPMessage) :
    Extracted :=
  if r.maxSize > 0 ∧ m.contentLength > 0 then
    match r.matchesType lib m with
    | none => orFailure parent ([], true) cache
    | some false => some ([], false, cache)
    | some true =>
      match cache with
      | some text => orFailure parent (r.extracts lib true text) cache
      | none =>
        if lib.tryDecoding m = .failed then
          let text := lib.cleanse m.getContent
          orFailure parent (r.extracts lib true text) (some text)
        else
          match parent with
          | none => none
          | some flags =>
            let text := finalContent lib flags m
            orFailure parent (r.extracts lib true text) (some text)
  else some ([], false, cache)

end ExtractionRule

/-- The final contents that have been found for an event. -/
structure ContentCaches where
  request : Option Bytes := none
  response : Option Bytes := none

/-- The values that a rule looks for in a dictionary. -/
def dictionaryValues (d : StringDictionary) (name : Bytes) : List Bytes :=
  (d.equalRange name).map Prod.snd

/-- The `switch` over the source of a rule. -/
def RuleView.extract (lib : ExtractionLibrary) (v : RuleView) (caches : ContentCaches)
    (q m : HTTPMessage) : Option ((List Bytes × Bool) × ContentCaches) :=
  let values (x : List Bytes × Bool) : Option ((List Bytes × Bool) × ContentCaches) :=
    (ExtractionRule.orFailure v.parent x none).map fun y => ((y.1, y.2.1), caches)
  let dictionary (urlDecoded : Bool) (d : StringDictionary) : List Bytes × Bool :=
    v.rule.process lib urlDecoded (dictionaryValues d v.rule.name)
  match v.rule.source with
  | .query => values (dictionary true q.getQueryParams)
  | .cookie =>
    let x := dictionary false q.cookieParams
    if x.2 then values x
    else
      let y := dictionary false m.cookieParams
      values (x.1 ++ y.1, y.2)
  | .csCookie => values (dictionary false q.cookieParams)
  | .scCookie => values (dictionary false m.cookieParams)
  | .csHeader => values (dictionary false q.headers)
  | .scHeader => values (dictionary false m.headers)
  | .csContent =>
    (v.rule.processContent lib v.parent caches.request q).map fun y =>
      ((y.1, y.2.1), { caches with request := y.2.2 })
  | .scContent =>
    (v.rule.processContent lib v.parent caches.response m).map fun y =>
      ((y.1, y.2.1), { caches with response := y.2.2 })
  | .csRawContent => values (v.rule.processRawContent lib q)
  | .scRawContent => values (v.rule.processRawContent lib m)

/-- The values of an event by the references of their terms, and for each rule whether it has
failed. -/
abbrev Extraction : Type := List (ℕ × Bytes) × List Bool

/-- The loop over the rules in `generateEvent`. -/
def extractAll (lib : ExtractionLibrary) : List RuleView → ContentCaches → HTTPMessage →
    HTTPMessage → Option Extraction
  | [], _, _, _ => some ([], [])
  | v :: vs, caches, q, m =>
    if v.running then
      match v.extract lib caches q m with
      | none => none
      | some ((values, failed), caches) =>
        (extractAll lib vs caches q m).map fun x =>
          (values.map (fun w => (v.rule.term.termRef, w)) ++ x.1, failed :: x.2)
    else (extractAll lib vs caches q m).map fun x => (x.1, false :: x.2)

/-! ### Protocol objects -/

/-- The terms that every HTTP protocol refers to. -/
inductive KnownTerm where
  | csDataPackets | scDataPackets | csMissingPackets | scMissingPackets | csHeaders | scHeaders
  | csBytes | scBytes | bytes | status | comment | method | uri | uriStem | uriQuery | request
  | cached | date | time | dateTime | epochTime | clfDate | requestStartTime | requestEndTime
  | responseStartTime | responseEndTime | csSendTime | csAckTime | scReplyTime | scSendTime
  | scAckTime | dataCenterTime | authuser | cIp | requestStatus | responseStatus | refused
  | canceled | csVersion
deriving DecidableEq

/-- The names of the terms, behind `urn:vocab:clickstream#`. -/
def KnownTerm.name : KnownTerm → Bytes
  | .csDataPackets => ascii "cs-data-packets"
  | .scDataPackets => ascii "sc-data-packets"
  | .csMissingPackets => ascii "cs-missing-packets"
  | .scMissingPackets => ascii "sc-missing-packets"
  | .csHeaders => ascii "cs-headers"
  | .scHeaders => ascii "sc-headers"
  | .csBytes => ascii "cs-bytes"
  | .scBytes => ascii "sc-bytes"
  | .bytes => ascii "bytes"
  | .status => ascii "status"
  | .comment => ascii "comment"
  | .method => ascii "method"
  | .uri => ascii "uri"
  | .uriStem => ascii "uri-stem"
  | .uriQuery => ascii "uri-query"
  | .request => ascii "request"
  | .cached => ascii "cached"
  | .date => ascii "date"
  | .time => ascii "time"
  | .dateTime => ascii "date-time"
  | .epochTime => ascii "epoch-time"
  | .clfDate => ascii "clf-date"
  | .requestStartTime => ascii "request-start-time"
  | .requestEndTime => ascii "request-end-time"
  | .responseStartTime => ascii "response-start-time"
  | .responseEndTime => ascii "response-end-time"
  | .csSendTime => ascii "cs-send-time"
  | .csAckTime => ascii "cs-ack-time"
  | .scReplyTime => ascii "sc-reply-time"
  | .scSendTime => ascii "sc-send-time"
  | .scAckTime => ascii "sc-ack-time"
  | .dataCenterTime => ascii "data-center-time"
  | .authuser => ascii "authuser"
  | .cIp => ascii "c-ip"
  | .requestStatus => ascii "request-status"
  | .responseStatus => ascii "response-status"
  | .refused => ascii "refused"
  | .canceled => ascii "canceled"
  | .csVersion => ascii "cs-version"

def KnownTerm.termId (t : KnownTerm) : Bytes := ascii "urn:vocab:clickstream#" ++ t.name

/-- The terms in the order in which they are looked up. -/
def KnownTerm.all : List KnownTerm :=
  [.csDataPackets, .scDataPackets, .csMissingPackets, .scMissingPackets, .csHeaders, .scHeaders,
    .csBytes, .scBytes, .bytes, .status, .comment, .method, .uri, .uriStem, .uriQuery, .request,
    .cached, .date, .time, .dateTime, .epochTime, .clfDate, .requestStartTime, .requestEndTime,
    .responseStartTime, .responseEndTime, .csSendTime, .csAckTime, .scReplyTime, .scSendTime,
    .scAckTime, .dataCenterTime, .authuser, .cIp, .requestStatus, .responseStatus, .refused,
    .canceled, .csVersion]

/-- An extraction rule in memory. -/
structure RuleCell where
  rule : ExtractionRule
  parent : ℕ
  running : Bool := true

/-- `HTTPProtocol`, with the event type of its base class. -/
structure ProtocolObject (τ : Type*) where
  protocol : HTTPProtocol τ
  eventTerm : Term := {}
  termRefs : KnownTerm → ℕ := fun _ => 0
  rules : List ℕ := []
  flags : ContentFlags

/-- The protocols and the rules in memory.  A rule stays as long as a protocol points to it. -/
structure ProtocolHeap (τ : Type*) where
  protocols : ℕ → Option (ProtocolObject τ) := fun _ => none
  rules : ℕ → RuleCell
  nextProtocol : ℕ := 0
  nextRule : ℕ := 0

/-- A call of a protocol. -/
inductive ProtocolCall (τ : Type*) where
  | readNext (k : Packet τ)
  | close (clientReset serverReset : Bool)
  | reset

/-- What a call returns. -/
inductive ProtocolResult where
  | read (rc : Tribool)
  | closed (finished : Bool)
  | done
deriving DecidableEq

/-- What comes of a call: its result, and the event with its type and the terms of its fields. -/
structure ProtocolOutcome (τ : Type*) where
  result : ProtocolResult
  eventTerm : Term
  termRefs : KnownTerm → ℕ
  event : Option (ProtocolEvent τ (Option Extraction))

namespace HTTPProtocol

variable {τ ρ : Type*} [LT τ] [DecidableLT τ]

/-- The protocol behind `close`. -/
def closed (p : HTTPProtocol τ) : HTTPProtocol τ :=
  let p := { p with request := finishMessage p.request, response := finishMessage p.response }
  if totalBytes p.request = 0 then p else cacheFirstLine p

/-- The result of a call, the protocol behind it, and the event. -/
def call (extract : HTTPMessage → HTTPMessage → ρ) (p : HTTPProtocol τ) :
    ProtocolCall τ → ProtocolResult × HTTPProtocol τ × Option (ProtocolEvent τ ρ)
  | .readNext k =>
    (.read (readNext extract p k).1, (readNext extract p k).2.1, (readNext extract p k).2.2)
  | .close clientReset serverReset =>
    (.closed (close extract clientReset serverReset p).1, p.closed,
      (close extract clientReset serverReset p).2)
  | .reset => (.done, p.reset, none)

end HTTPProtocol

/-! ### Configurations -/

/-- The elements of an `Extract`; what is not there is `none`. -/
structure RuleConfig where
  term : Bytes
  source : Option Bytes
  name : Option Bytes := none
  format : Option Bytes := none
  matchRegex : Option Bytes := none
  contentType : Option Bytes := none
  maxSize : Option Bytes := none
  maxExtracts : Option Bytes := none

/-- The elements of a configuration. -/
structure ProtocolConfig where
  eventType : Option Bytes
  maxRequestContentLength : Option ℕ := none
  maxResponseContentLength : Option ℕ := none
  rawRequestHeaders : Option Bytes := none
  rawResponseHeaders : Option Bytes := none
  allowUtf8Conversion : Option Bytes := none
  allowSearchingContentForCharset : Option Bytes := none
  extracts : List RuleConfig := []

/-- The exceptions of `setConfig`. -/
inductive ProtocolError where
  | emptyEvent
  | unknownTerm (termId : Bytes)
  | notAnObject (eventType : Bytes)
  | emptyTerm
  | termNotString (termId : Bytes)
  | emptySource
  | unknownSource (source : Bytes)
  | emptyName
  | badMatchRegex (regex : Bytes)
  | badContentRegex (regex : Bytes)
deriving DecidableEq

/-- The names of the sources in a configuration. -/
def ExtractionSource.ofText (s : Bytes) : Option ExtractionSource :=
  if s = ascii "query" then some .query
  else if s = ascii "cookie" then some .cookie
  else if s = ascii "cs-cookie" then some .csCookie
  else if s = ascii "sc-cookie" then some .scCookie
  else if s = ascii "cs-header" then some .csHeader
  else if s = ascii "sc-header" then some .scHeader
  else if s = ascii "cs-content" then some .csContent
  else if s = ascii "sc-content" then some .scContent
  else if s = ascii "cs-raw-content" then some .csRawContent
  else if s = ascii "sc-raw-content" then some .scRawContent
  else none

/-- The source is a dictionary, and the rule has the name of an entry. -/
def ExtractionSource.hasName : ExtractionSource → Bool
  | .query | .cookie | .csCookie | .scCookie | .csHeader | .scHeader => true
  | .csContent | .scContent | .csRawContent | .scRawContent => false

/-- Only these types can hold what is extracted. -/
def isTextType : DataType → Bool
  | .shortString | .string | .longString | .char | .blob | .zblob => true
  | _ => false

/-- A number of a configuration; a failed cast keeps the default. -/
def numberOr (default : ℕ) (s : Option Bytes) : ℕ := (s.bind (lexicalCast uintMod)).getD default

/-- A regular expression of a configuration. -/
def checkRegex (lib : ExtractionLibrary) (exception : Bytes → ProtocolError) (s : Option Bytes) :
    Except ProtocolError (Option Bytes) :=
  match s with
  | none => .ok none
  | some regex => if lib.isRegex regex then .ok (some regex) else .error (exception regex)

/-- The rule that an `Extract` describes. -/
def readRule (lib : ExtractionLibrary) (v : Vocabulary) (c : RuleConfig) :
    Except ProtocolError ExtractionRule := do
  if c.term = [] then throw .emptyTerm
  if v.findTerm c.term = 0 then throw (.unknownTerm c.term)
  let term := v.get (v.findTerm c.term)
  if ! isTextType term.termType then throw (.termNotString c.term)
  let text := c.source.getD []
  if text = [] then throw .emptySource
  match ExtractionSource.ofText text with
  | none => throw (.unknownSource text)
  | some source =>
    if source.hasName ∧ c.name = none then throw .emptyName
    let matchRegex ← checkRegex lib .badMatchRegex c.matchRegex
    let typeRegex ← checkRegex lib .badContentRegex c.contentType
    return {
      term := term
      source := source
      name := if source.hasName then c.name.getD [] else []
      format := c.format.getD []
      matchRegex := matchRegex
      typeRegex := typeRegex
      maxSize := numberOr (uintMod - 1) c.maxSize
      maxExtracts := numberOr 1 c.maxExtracts }

/-- The rules that are read before one that throws. -/
def readRules (lib : ExtractionLibrary) (v : Vocabulary) :
    List RuleConfig → List ExtractionRule × Option ProtocolError
  | [] => ([], none)
  | c :: cs =>
    match readRule lib v c with
    | .error x => ([], some x)
    | .ok r => (r :: (readRules lib v cs).1, (readRules lib v cs).2)

/-- The two settings that rules look up. -/
def ProtocolConfig.flags (c : ProtocolConfig) : ContentFlags where
  allowUtf8Conversion := c.allowUtf8Conversion.all (· == ascii "true")
  allowSearchingContentForCharset :=
    match c.allowSearchingContentForCharset with
    | none => c.allowUtf8Conversion.all (· == ascii "true")
    | some s => s == ascii "true"

instance : Inhabited ExtractionRule := ⟨{ term := {}, source := .query }⟩

instance : Inhabited RuleCell := ⟨{ rule := default, parent := 0 }⟩

/-- The references of the known terms.  The last one that is looked up is the first that is not in
the vocabulary. -/
def lookUpTerms (v : Vocabulary) :
    List KnownTerm → (KnownTerm → ℕ) → (KnownTerm → ℕ) × Option ProtocolError
  | [], refs => (refs, none)
  | t :: ts, refs =>
    let refs := Function.update refs t (v.findTerm t.termId)
    if v.findTerm t.termId = 0 then (refs, some (.unknownTerm t.termId)) else lookUpTerms v ts refs

/-- The options of a parser. -/
def setOptions (s : Session) (maxContentLength : ℕ) (saveRawHeaders : Bool) : Session :=
  { s with parser := { s.parser with
    maxContentLength := maxContentLength, saveRawHeaders := saveRawHeaders } }

namespace ProtocolObject

variable {τ : Type*}

/-- `HTTPProtocol()`; the flags are whatever is in the memory. -/
def new (flags : ContentFlags) : ProtocolObject τ where
  protocol := HTTPProtocol.new defaultContentMax defaultContentMax false false
  flags := flags

/-- `clone` -/
def clone (o : ProtocolObject τ) (flags : ContentFlags) : ProtocolObject τ where
  protocol := HTTPProtocol.new o.protocol.request.parser.maxContentLength
    o.protocol.response.parser.maxContentLength o.protocol.request.parser.saveRawHeaders
    o.protocol.response.parser.saveRawHeaders
  eventTerm := o.eventTerm
  termRefs := o.termRefs
  rules := o.rules
  flags := flags

/-- The object behind `setConfig`, the rules that are made at addresses from `first` on, and the
exception. -/
def setConfig (lib : ExtractionLibrary) (v : Vocabulary) (c : ProtocolConfig) (first : ℕ)
    (o : ProtocolObject τ) : ProtocolObject τ × List ExtractionRule × Option ProtocolError :=
  match c.eventType with
  | none => (o, [], some .emptyEvent)
  | some eventType =>
    if v.findTerm eventType = 0 then (o, [], some (.unknownTerm eventType))
    else
      let eventTerm := v.get (v.findTerm eventType)
      if eventTerm.termType ≠ .object then
        ({ o with eventTerm := eventTerm }, [], some (.notAnObject eventType))
      else
        let rules := readRules lib v c.extracts
        let p : HTTPProtocol τ := { o.protocol with
          request := setOptions o.protocol.request
            (c.maxRequestContentLength.getD defaultContentMax)
            (c.rawRequestHeaders == some (ascii "true"))
          response := setOptions o.protocol.response
            (c.maxResponseContentLength.getD defaultContentMax)
            (c.rawResponseHeaders == some (ascii "true")) }
        let o := { o with
          protocol := p
          eventTerm := eventTerm
          rules := List.range' first rules.1.length
          flags := c.flags }
        match rules.2 with
        | some x => (o, rules.1, some x)
        | none =>
          ({ o with termRefs := (lookUpTerms v KnownTerm.all o.termRefs).1 }, rules.1,
            (lookUpTerms v KnownTerm.all o.termRefs).2)

end ProtocolObject

/-! ### The heap -/

/-- The outcome of a call of a protocol with the given rules, and the protocol behind it. -/
def callProtocol {τ : Type*} [LT τ] [DecidableLT τ] (lib : ExtractionLibrary) (eventTerm : Term)
    (termRefs : KnownTerm → ℕ) (rules : List RuleView) (p : HTTPProtocol τ) (x : ProtocolCall τ) :
    ProtocolOutcome τ × HTTPProtocol τ :=
  let y := p.call (extractAll lib rules {}) x
  (⟨y.1, eventTerm, termRefs, y.2.2⟩, y.2.1)

/-- For each rule, whether it has failed. -/
def ProtocolOutcome.failed {τ : Type*} (x : ProtocolOutcome τ) : List Bool :=
  ((x.event.bind (·.extracted)).map Prod.snd).getD []

namespace ProtocolHeap

variable {τ : Type*}

/-- A rule with what its reference leads to. -/
def view (H : ProtocolHeap τ) (i : ℕ) : RuleView where
  rule := (H.rules i).rule
  running := (H.rules i).running
  parent := (H.protocols (H.rules i).parent).map (·.flags)

/-- A new object. -/
def add (H : ProtocolHeap τ) (o : ProtocolObject τ) : ProtocolHeap τ :=
  { H with
    protocols := Function.update H.protocols H.nextProtocol (some o)
    nextProtocol := H.nextProtocol + 1 }

/-- The rules of a configuration refer to the protocol that is configured. -/
def setConfig (lib : ExtractionLibrary) (v : Vocabulary) (c : ProtocolConfig)
    (H : ProtocolHeap τ) (a : ℕ) (o : ProtocolObject τ) : ProtocolHeap τ :=
  let x := o.setConfig lib v c H.nextRule
  { H with
    protocols := Function.update H.protocols a (some x.1)
    rules := fun i =>
      if i < H.nextRule then H.rules i
      else (x.2.1[i - H.nextRule]?.map fun r => { rule := r, parent := a }).getD (H.rules i)
    nextRule := H.nextRule + x.2.1.length }

/-- A rule that has failed does not run again. -/
def disable (debug : Bool) (H : ProtocolHeap τ) (rules : List ℕ) (failed : List Bool) :
    ProtocolHeap τ :=
  { H with rules := fun i =>
      if debug = false ∧ (i, true) ∈ rules.zip failed then { H.rules i with running := false }
      else H.rules i }

variable [LT τ] [DecidableLT τ]

/-- A call of the protocol at an address. -/
def call (lib : ExtractionLibrary) (debug : Bool) (H : ProtocolHeap τ) (a : ℕ)
    (o : ProtocolObject τ) (x : ProtocolCall τ) : ProtocolOutcome τ × ProtocolHeap τ :=
  let y := callProtocol lib o.eventTerm o.termRefs (o.rules.map H.view) o.protocol x
  (y.1, { H.disable debug o.rules y.1.failed with
    protocols := Function.update H.protocols a (some { o with protocol := y.2 }) })

end ProtocolHeap

/-- What can happen; the flags of a new object are whatever is in the memory. -/
inductive ProtocolOp (τ : Type*) where
  | create (flags : ContentFlags)
  | clone (a : ℕ) (flags : ContentFlags)
  | setConfig (a : ℕ) (v : Vocabulary) (c : ProtocolConfig)
  | destroy (a : ℕ)
  | call (a : ℕ) (x : ProtocolCall τ)

/-- The heap, and the outcomes of all calls with the addresses of the protocols. -/
abbrev ProtocolState (τ : Type*) : Type _ := ProtocolHeap τ × List (ℕ × ProtocolOutcome τ)

namespace ProtocolHeap

variable {τ : Type*} [LT τ] [DecidableLT τ]

/-- One step; there is none for a protocol that is not there. -/
def step (lib : ExtractionLibrary) (debug : Bool) (s : ProtocolState τ) :
    ProtocolOp τ → Option (ProtocolState τ)
  | .create flags => some (s.1.add (.new flags), s.2)
  | .clone a flags => (s.1.protocols a).map fun o => (s.1.add (o.clone flags), s.2)
  | .setConfig a v c => (s.1.protocols a).map fun o => (s.1.setConfig lib v c a o, s.2)
  | .destroy a =>
    (s.1.protocols a).map fun _ =>
      ({ s.1 with protocols := Function.update s.1.protocols a none }, s.2)
  | .call a x =>
    (s.1.protocols a).map fun o =>
      ((s.1.call lib debug a o x).2, s.2 ++ [(a, (s.1.call lib debug a o x).1)])

end ProtocolHeap

/-! ### A protocol of one's own -/

/-- A protocol that shares nothing: it has its rules, and what they look up, for itself. -/
structure PrivateProtocol (τ : Type*) where
  protocol : HTTPProtocol τ
  eventTerm : Term
  termRefs : KnownTerm → ℕ
  rules : List RuleView

/-- The rules behind a call. -/
def disableRules (debug : Bool) : List RuleView → List Bool → List RuleView
  | v :: vs, b :: bs =>
    (if debug = false ∧ b = true then { v with running := false } else v) ::
      disableRules debug vs bs
  | vs, _ => vs

namespace PrivateProtocol

variable {τ : Type*} [LT τ] [DecidableLT τ] (lib : ExtractionLibrary) (debug : Bool)

def call (P : PrivateProtocol τ) (x : ProtocolCall τ) : ProtocolOutcome τ × PrivateProtocol τ :=
  let y := callProtocol lib P.eventTerm P.termRefs P.rules P.protocol x
  (y.1, { P with protocol := y.2, rules := disableRules debug P.rules y.1.failed })

/-- The outcomes of a list of calls. -/
def outcomes : PrivateProtocol τ → List (ProtocolCall τ) → List (ProtocolOutcome τ)
  | _, [] => []
  | P, x :: xs => (P.call lib debug x).1 :: outcomes (P.call lib debug x).2 xs

end PrivateProtocol

/-- The calls of one protocol. -/
def callsOf {τ : Type*} (c : ℕ) : List (ProtocolOp τ) → List (ProtocolCall τ)
  | [] => []
  | .call a x :: ops => if a = c then x :: callsOf c ops else callsOf c ops
  | _ :: ops => callsOf c ops

/-- The outcomes of one protocol. -/
def outcomesOf {τ : Type*} (c : ℕ) (log : List (ℕ × ProtocolOutcome τ)) :
    List (ProtocolOutcome τ) :=
  (log.filter (·.1 == c)).map Prod.snd

/-! ### What a rule depends on -/

/-- The settings make no difference. -/
def ContentFlags.Same (f g : ContentFlags) : Prop :=
  f.allowUtf8Conversion = g.allowUtf8Conversion ∧
    (f.allowUtf8Conversion = true →
      f.allowSearchingContentForCharset = g.allowSearchingContentForCharset)

namespace ExtractionRule

/-- The rule extracts decoded content. -/
def UsesFlags (r : ExtractionRule) : Prop :=
  0 < r.maxSize ∧ (r.source = .csContent ∨ r.source = .scContent)

/-- No search of the rule throws. -/
def NeverFails (lib : ExtractionLibrary) (r : ExtractionRule) : Prop :=
  (∀ utf8 text, (r.extracts lib utf8 text).2 = false) ∧ ∀ m, r.matchesType lib m ≠ none

/-- The rule never looks behind its reference. -/
def Detached (lib : ExtractionLibrary) (r : ExtractionRule) : Prop :=
  r.maxSize = 0 ∨ ¬ r.UsesFlags ∧ r.NeverFails lib

/-- What is found behind the reference of a rule makes no difference. -/
def ParentAgrees (lib : ExtractionLibrary) (r : ExtractionRule) :
    Option ContentFlags → Option ContentFlags → Prop
  | some f, some g => r.Detached lib ∨ (r.UsesFlags → f.Same g)
  | none, none => True
  | _, _ => r.Detached lib

end ExtractionRule

/-- A rule and a rule of a private protocol do the same. -/
structure RuleView.Agrees (lib : ExtractionLibrary) (v w : RuleView) : Prop where
  rule : v.rule = w.rule
  running : v.running = w.running
  parent : w.rule.ParentAgrees lib v.parent w.parent

/-! ### Rules that find the same behind their references -/

section Rules

variable {lib : ExtractionLibrary} {r : ExtractionRule} {f g : ContentFlags}

lemma ContentFlags.Same.trans {k : ContentFlags} (h : f.Same g) (h' : g.Same k) : f.Same k :=
  ⟨h.1.trans h'.1, fun hf => (h.2 hf).trans (h'.2 (h.1 ▸ hf))⟩

namespace ExtractionRule

lemma charset_congr (h : f.Same g) (type body : Bytes) :
    charset lib f type body = charset lib g type body := by
  rw [charset, charset, ← h.1]
  by_cases hf : f.allowUtf8Conversion = true
  · rw [if_pos hf, if_pos hf, h.2 hf]
  · rw [if_neg hf, if_neg hf]

lemma finalContent_congr (h : f.Same g) (m : HTTPMessage) :
    finalContent lib f m = finalContent lib g m := by
  simp only [finalContent, charset_congr h]

lemma NeverFails.process (h : r.NeverFails lib) (urlDecoded : Bool) (values : List Bytes) :
    (r.process lib urlDecoded values).2 = false := by
  induction values with
  | nil => rfl
  | cons value values ih =>
    simp only [ExtractionRule.process, h.1, ih, Bool.false_eq_true, if_false]
    split_ifs <;> first | rfl | exact ih

lemma NeverFails.processRawContent (h : r.NeverFails lib) (m : HTTPMessage) :
    (r.processRawContent lib m).2 = false := by
  rw [ExtractionRule.processRawContent]
  split_ifs
  · cases ht : r.matchesType lib m with
    | none => exact absurd ht (h.2 m)
    | some b =>
      cases b
      · rfl
      · exact h.1 false m.getContent
  · rfl

lemma process_of_maxSize (h : r.maxSize = 0) (urlDecoded : Bool) (values : List Bytes) :
    r.process lib urlDecoded values = ([], false) := by
  induction values with
  | nil => rfl
  | cons value values ih =>
    rw [process]
    exact (if_neg (by omega)).trans ih

lemma processRawContent_of_maxSize (h : r.maxSize = 0) (m : HTTPMessage) :
    r.processRawContent lib m = ([], false) := if_neg (by omega)

lemma processContent_of_maxSize (h : r.maxSize = 0) (p : Option ContentFlags)
    (cache : Option Bytes) (m : HTTPMessage) :
    r.processContent lib p cache m = some ([], false, cache) := if_neg (by omega)

/-- A rule whose searches do not throw extracts from a dictionary. -/
lemma Detached.process (h : r.Detached lib) (urlDecoded : Bool) (values : List Bytes) :
    (r.process lib urlDecoded values).2 = false := by
  rcases h with h | ⟨-, h⟩
  · rw [process_of_maxSize h]
  · exact h.process urlDecoded values

lemma Detached.processRawContent (h : r.Detached lib) (m : HTTPMessage) :
    (r.processRawContent lib m).2 = false := by
  rcases h with h | ⟨-, h⟩
  · rw [processRawContent_of_maxSize h]
  · exact h.processRawContent m

lemma orFailure_of_eq_false {x : List Bytes × Bool} (hx : x.2 = false) (p : Option ContentFlags)
    (cache : Option Bytes) : orFailure p x cache = some (x.1, false, cache) := by
  rw [orFailure, if_neg (by simp [hx]), hx]

lemma orFailure_some (x : List Bytes × Bool) (cache : Option Bytes) :
    orFailure (some f) x cache = some (x.1, x.2, cache) := if_neg (by simp)

/-- The values of a rule that does not need its settings. -/
lemma ParentAgrees.orFailure_eq {p q : Option ContentFlags} (h : r.ParentAgrees lib p q)
    {x : List Bytes × Bool} (hx : r.Detached lib → x.2 = false) (cache : Option Bytes) :
    orFailure p x cache = orFailure q x cache := by
  cases p with
  | none =>
    cases q with
    | none => rfl
    | some g => rw [orFailure_of_eq_false (hx h), orFailure_of_eq_false (hx h)]
  | some f =>
    cases q with
    | none => rw [orFailure_of_eq_false (hx h), orFailure_of_eq_false (hx h)]
    | some g => rw [orFailure_some, orFailure_some]

/-- The content, for a rule that needs the settings. -/
lemma ParentAgrees.processContent {p q : Option ContentFlags} (h : r.ParentAgrees lib p q)
    (hsource : r.source = .csContent ∨ r.source = .scContent) (cache : Option Bytes)
    (m : HTTPMessage) : r.processContent lib p cache m = r.processContent lib q cache m := by
  by_cases hsize : r.maxSize = 0
  · rw [processContent_of_maxSize hsize, processContent_of_maxSize hsize]
  have huses : r.UsesFlags := ⟨Nat.pos_of_ne_zero hsize, hsource⟩
  have hattached : ¬ r.Detached lib := by
    rintro (h0 | ⟨hno, -⟩)
    · exact hsize h0
    · exact hno huses
  cases p with
  | none =>
    cases q with
    | none => rfl
    | some g => exact absurd h hattached
  | some f =>
    cases q with
    | none => exact absurd h hattached
    | some g =>
      have hsame : f.Same g := (h.resolve_left hattached) huses
      simp only [ExtractionRule.processContent, finalContent_congr hsame, orFailure_some]

end ExtractionRule

/-- Rules that agree extract the same. -/
lemma RuleView.Agrees.extract {v w : RuleView} (h : v.Agrees lib w) (caches : ContentCaches)
    (q m : HTTPMessage) : v.extract lib caches q m = w.extract lib caches q m := by
  obtain ⟨rule, running, p⟩ := v
  obtain ⟨rule', running', p'⟩ := w
  obtain ⟨hrule, hrunning, hparent⟩ := h
  subst hrule hrunning
  replace hparent : rule.ParentAgrees lib p p' := hparent
  have hdict (b : Bool) (d : StringDictionary) :=
    hparent.orFailure_eq
      (fun hd => hd.process b (dictionaryValues d rule.name)) none
  have hraw (m : HTTPMessage) := hparent.orFailure_eq (fun hd => hd.processRawContent m) none
  cases hsource : rule.source with
  | query => simp only [RuleView.extract, hsource, hdict]
  | cookie =>
    simp only [RuleView.extract, hsource]
    split_ifs with hfailed
    · rw [hdict]
    · refine congrArg _ (hparent.orFailure_eq (fun hd => ?_) none)
      exact hd.process false (dictionaryValues m.cookieParams rule.name)
  | csCookie => simp only [RuleView.extract, hsource, hdict]
  | scCookie => simp only [RuleView.extract, hsource, hdict]
  | csHeader => simp only [RuleView.extract, hsource, hdict]
  | scHeader => simp only [RuleView.extract, hsource, hdict]
  | csContent =>
    simp only [RuleView.extract, hsource, hparent.processContent (Or.inl hsource)]
  | scContent =>
    simp only [RuleView.extract, hsource, hparent.processContent (Or.inr hsource)]
  | csRawContent => simp only [RuleView.extract, hsource, hraw]
  | scRawContent => simp only [RuleView.extract, hsource, hraw]

/-- Lists of rules that agree extract the same. -/
lemma extractAll_congr {vs ws : List RuleView} (h : List.Forall₂ (RuleView.Agrees lib) vs ws)
    (caches : ContentCaches) (q m : HTTPMessage) :
    extractAll lib vs caches q m = extractAll lib ws caches q m := by
  induction h generalizing caches with
  | nil => rfl
  | @cons v w vs ws hvw hrest ih =>
    rw [extractAll, extractAll, hvw.running, hvw.extract, hvw.rule]
    simp only [ih]

end Rules

/-! ### Steps of the heap -/

section Heap

variable {τ : Type*} {lib : ExtractionLibrary} {debug : Bool} {H H' : ProtocolHeap τ}

/-- Rules that are in memory belong to protocols that have been made. -/
structure ProtocolHeap.Sound (H : ProtocolHeap τ) : Prop where
  fresh : ∀ a, H.nextProtocol ≤ a → H.protocols a = none
  nodup : ∀ a o, H.protocols a = some o → o.rules.Nodup
  made : ∀ a o, H.protocols a = some o → ∀ i ∈ o.rules, i < H.nextRule
  parent : ∀ i < H.nextRule, (H.rules i).parent < H.nextProtocol

/-- A protocol in memory and a private one do the same. -/
structure ProtocolObject.Agrees (lib : ExtractionLibrary) (H : ProtocolHeap τ)
    (C : ProtocolObject τ) (P : PrivateProtocol τ) : Prop where
  protocol : C.protocol = P.protocol
  eventTerm : C.eventTerm = P.eventTerm
  termRefs : C.termRefs = P.termRefs
  rules : List.Forall₂ (RuleView.Agrees lib) (C.rules.map H.view) P.rules

namespace ProtocolHeap

lemma Sound.lt_nextProtocol (h : H.Sound) {a : ℕ} {o : ProtocolObject τ}
    (ha : H.protocols a = some o) : a < H.nextProtocol := by
  by_contra hle
  rw [h.fresh a (Nat.le_of_not_lt hle)] at ha
  exact absurd ha (by simp)

lemma protocols_add_self (H : ProtocolHeap τ) (o : ProtocolObject τ) :
    (H.add o).protocols H.nextProtocol = some o := Function.update_self ..

lemma protocols_add_of_ne {a : ℕ} (h : a ≠ H.nextProtocol) (o : ProtocolObject τ) :
    (H.add o).protocols a = H.protocols a := Function.update_of_ne h ..

lemma Sound.add (h : H.Sound) {o : ProtocolObject τ} (hnodup : o.rules.Nodup)
    (hmade : ∀ i ∈ o.rules, i < H.nextRule) : (H.add o).Sound where
  fresh a ha := by
    rw [protocols_add_of_ne (Nat.ne_of_gt ha)]
    exact h.fresh a (Nat.le_of_succ_le ha)
  nodup a p ha := by
    by_cases heq : a = H.nextProtocol
    · rw [heq, protocols_add_self] at ha
      exact Option.some.inj ha ▸ hnodup
    · rw [protocols_add_of_ne heq] at ha
      exact h.nodup a p ha
  made a p ha := by
    by_cases heq : a = H.nextProtocol
    · rw [heq, protocols_add_self] at ha
      exact Option.some.inj ha ▸ hmade
    · rw [protocols_add_of_ne heq] at ha
      exact h.made a p ha
  parent i hi := Nat.lt_succ_of_lt (h.parent i hi)

/-- The protocol at `a` is replaced by one with rules that have been made. -/
lemma Sound.replace (h : H.Sound) {a : ℕ} {o : Option (ProtocolObject τ)}
    (ha : a < H.nextProtocol) (hrules : ∀ p, o = some p → p.rules.Nodup ∧
      ∀ i ∈ p.rules, i < H'.nextRule)
    (hprotocols : H'.protocols = Function.update H.protocols a o)
    (hnext : H'.nextProtocol = H.nextProtocol) (hle : H.nextRule ≤ H'.nextRule)
    (hparent : ∀ i < H'.nextRule, (H'.rules i).parent = (H.rules i).parent ∧ i < H.nextRule ∨
      (H'.rules i).parent = a) : H'.Sound where
  fresh b hb := by
    have hne : b ≠ a := by omega
    rw [hprotocols, Function.update_of_ne hne]
    exact h.fresh b (hnext ▸ hb)
  nodup b p hb := by
    rw [hprotocols] at hb
    by_cases heq : b = a
    · rw [heq, Function.update_self] at hb
      exact (hrules p hb).1
    · rw [Function.update_of_ne heq] at hb
      exact h.nodup b p hb
  made b p hb i hi := by
    rw [hprotocols] at hb
    by_cases heq : b = a
    · rw [heq, Function.update_self] at hb
      exact (hrules p hb).2 i hi
    · rw [Function.update_of_ne heq] at hb
      exact (h.made b p hb i hi).trans_le hle
  parent i hi := by
    rw [hnext]
    rcases hparent i hi with ⟨heq, hlt⟩ | heq
    · rw [heq]
      exact h.parent i hlt
    · rw [heq]
      exact ha

end ProtocolHeap

/-- The rules of a configuration are new. -/
lemma ProtocolObject.rules_setConfig (lib : ExtractionLibrary) (v : Vocabulary)
    (c : ProtocolConfig) (first : ℕ) (o : ProtocolObject τ) :
    (o.setConfig lib v c first).1.rules = o.rules ∨
      (o.setConfig lib v c first).1.rules =
        List.range' first (o.setConfig lib v c first).2.1.length := by
  rw [ProtocolObject.setConfig]
  cases c.eventType with
  | none => exact Or.inl rfl
  | some eventType =>
    dsimp only
    split_ifs
    · exact Or.inl rfl
    · exact Or.inl rfl
    · cases (readRules lib v c.extracts).2 <;> exact Or.inr rfl

namespace ProtocolHeap

lemma protocols_setConfig_self {v : Vocabulary} {c : ProtocolConfig} {a : ℕ}
    {o : ProtocolObject τ} : (H.setConfig lib v c a o).protocols a =
      some (o.setConfig lib v c H.nextRule).1 := Function.update_self ..

lemma protocols_setConfig_of_ne {v : Vocabulary} {c : ProtocolConfig} {a b : ℕ}
    {o : ProtocolObject τ} (h : b ≠ a) :
    (H.setConfig lib v c a o).protocols b = H.protocols b := Function.update_of_ne h ..

/-- The rules that are there already stay. -/
lemma rules_setConfig_of_lt {v : Vocabulary} {c : ProtocolConfig} {a i : ℕ}
    {o : ProtocolObject τ} (h : i < H.nextRule) :
    (H.setConfig lib v c a o).rules i = H.rules i := if_pos h

lemma Sound.setConfig (h : H.Sound) {a : ℕ} {o : ProtocolObject τ} (ha : H.protocols a = some o)
    (v : Vocabulary) (c : ProtocolConfig) : (H.setConfig lib v c a o).Sound := by
  refine h.replace (h.lt_nextProtocol ha) ?_ rfl rfl (Nat.le_add_right ..) ?_
  · intro p hp
    obtain rfl := Option.some.inj hp
    rcases o.rules_setConfig lib v c H.nextRule with hrules | hrules
    · rw [hrules]
      exact ⟨h.nodup a o ha, fun i hi => (h.made a o ha i hi).trans_le (Nat.le_add_right ..)⟩
    · rw [hrules]
      refine ⟨List.nodup_range', fun i hi => ?_⟩
      obtain ⟨-, hlt⟩ := List.mem_range'_1.1 hi
      exact hlt
  · intro i hi
    by_cases hlt : i < H.nextRule
    · exact Or.inl ⟨by rw [rules_setConfig_of_lt hlt], hlt⟩
    · have hsome : i - H.nextRule < (o.setConfig lib v c H.nextRule).2.1.length := by
        have : i < H.nextRule + (o.setConfig lib v c H.nextRule).2.1.length := hi
        omega
      refine Or.inr ((congrArg RuleCell.parent (if_neg hlt)).trans ?_)
      rw [List.getElem?_eq_getElem hsome]
      rfl

variable [LT τ] [DecidableLT τ]

lemma Sound.call (h : H.Sound) {a : ℕ} {o : ProtocolObject τ} (ha : H.protocols a = some o)
    (x : ProtocolCall τ) : (H.call lib debug a o x).2.Sound := by
  refine h.replace (h.lt_nextProtocol ha) ?_ rfl rfl le_rfl ?_
  · intro p hp
    obtain rfl := Option.some.inj hp
    exact ⟨h.nodup a o ha, h.made a o ha⟩
  · intro i hi
    refine Or.inl ⟨?_, hi⟩
    show (if _ then _ else _ : RuleCell).parent = _
    split_ifs <;> rfl

lemma Sound.step (h : H.Sound) {log : List (ℕ × ProtocolOutcome τ)} {e : ProtocolOp τ}
    {s : ProtocolState τ} (hstep : ProtocolHeap.step lib debug (H, log) e = some s) :
    s.1.Sound := by
  cases e with
  | create flags =>
    obtain rfl := Option.some.inj hstep
    exact h.add List.nodup_nil (by simp [ProtocolObject.new])
  | clone a flags =>
    obtain ⟨o, ho, rfl⟩ := Option.map_eq_some_iff.1 hstep
    exact h.add (h.nodup a o ho) (h.made a o ho)
  | setConfig a v c =>
    obtain ⟨o, ho, rfl⟩ := Option.map_eq_some_iff.1 hstep
    exact h.setConfig ho v c
  | destroy a =>
    obtain ⟨o, ho, rfl⟩ := Option.map_eq_some_iff.1 hstep
    exact h.replace (o := none) (h.lt_nextProtocol ho) (fun p hp => absurd hp (by simp)) rfl rfl
      le_rfl fun i hi => Or.inl ⟨rfl, hi⟩
  | call a x =>
    obtain ⟨o, ho, rfl⟩ := Option.map_eq_some_iff.1 hstep
    exact h.call ho x

end ProtocolHeap

/-! ### Clones -/

/-- What an operation must not do for the clone at `c`.  A configuration of the protocol that its
rules refer to must leave the settings as they are, if one of these rules extracts decoded content;
this protocol may only be destroyed if the rules never look behind their reference; and a call of
another protocol must not let one of the rules fail, except in debug mode. -/
def ProtocolHeap.Keeps [LT τ] [DecidableLT τ] (lib : ExtractionLibrary) (debug : Bool) (c : ℕ)
    (H : ProtocolHeap τ) : ProtocolOp τ → Prop
  | .create _ => True
  | .clone _ _ => True
  | .setConfig a v k => a ≠ c ∧ ∀ o C, H.protocols a = some o → H.protocols c = some C →
      ∀ i ∈ C.rules, (H.rules i).parent = a → (H.rules i).rule.UsesFlags →
        (o.setConfig lib v k H.nextRule).1.flags.Same o.flags
  | .destroy a => a ≠ c ∧ ∀ C, H.protocols c = some C →
      ∀ i ∈ C.rules, (H.rules i).parent = a → (H.rules i).rule.Detached lib
  | .call a x => a = c ∨ debug = true ∨ ∀ o C, H.protocols a = some o → H.protocols c = some C →
      ∀ i ∈ C.rules, (i, true) ∉ o.rules.zip (H.call lib debug a o x).1.failed

namespace RuleView.Agrees

variable {v w : RuleView}

/-- The reference of a rule leads to settings that make no difference to it. -/
lemma setFlags (h : v.Agrees lib w) {f g : ContentFlags} (hv : v.parent = some f)
    (hg : v.rule.UsesFlags → g.Same f) : ({ v with parent := some g } : RuleView).Agrees lib w := by
  refine ⟨h.rule, h.running, ?_⟩
  have hparent := h.parent
  rw [hv] at hparent
  cases hw : w.parent with
  | none =>
    rw [hw] at hparent
    exact hparent
  | some k =>
    rw [hw] at hparent
    rcases hparent with hdetached | hsame
    · exact Or.inl hdetached
    · exact Or.inr fun huses => (hg (h.rule ▸ huses)).trans (hsame huses)

lemma detach (h : v.Agrees lib w) (hdetached : v.rule.Detached lib) (p : Option ContentFlags) :
    ({ v with parent := p } : RuleView).Agrees lib w := by
  refine ⟨h.rule, h.running, ?_⟩
  rw [h.rule] at hdetached
  cases p with
  | none =>
    cases hw : w.parent with
    | none => trivial
    | some g => exact hdetached
  | some f =>
    cases hw : w.parent with
    | none => exact hdetached
    | some g => exact Or.inl hdetached

lemma refl (v : RuleView) : v.Agrees lib v := by
  refine ⟨rfl, rfl, ?_⟩
  cases v.parent with
  | none => trivial
  | some f => exact Or.inr fun _ => ⟨rfl, fun _ => rfl⟩

end RuleView.Agrees

/-- The rules of a list that are disabled by its own failures. -/
lemma forall₂_disable {rules : List ℕ} (hnodup : rules.Nodup) {view : ℕ → RuleView}
    {ws : List RuleView} (h : List.Forall₂ (RuleView.Agrees lib) (rules.map view) ws)
    (failed : List Bool) :
    List.Forall₂ (RuleView.Agrees lib)
      (rules.map fun i =>
        if debug = false ∧ (i, true) ∈ rules.zip failed then { view i with running := false }
        else view i) (disableRules debug ws failed) := by
  induction rules generalizing ws failed with
  | nil =>
    cases h
    exact .nil
  | cons i rules ih =>
    obtain ⟨hi, hnodup⟩ := List.nodup_cons.1 hnodup
    cases h with
    | @cons _ w _ ws hw hrest =>
    cases failed with
    | nil => simpa [disableRules] using List.Forall₂.cons hw hrest
    | cons b failed =>
      refine .cons ?_ ?_
      · have hmem : (i, true) ∈ (i :: rules).zip (b :: failed) ↔ b = true := by
          rw [List.zip_cons_cons, List.mem_cons]
          constructor
          · rintro (heq | hzip)
            · exact (Prod.mk.inj heq).2.symm
            · exact absurd (List.of_mem_zip hzip).1 hi
          · rintro rfl
            exact Or.inl rfl
        simp only [hmem]
        split_ifs
        · exact ⟨hw.rule, rfl, hw.parent⟩
        · exact hw
      · have hcongr : (rules.map fun j =>
            if debug = false ∧ (j, true) ∈ (i :: rules).zip (b :: failed) then
              { view j with running := false } else view j) =
            rules.map fun j => if debug = false ∧ (j, true) ∈ rules.zip failed then
              { view j with running := false } else view j := by
          refine List.map_congr_left fun j hj => ?_
          have hne : (j, true) ≠ (i, b) := fun heq => hi ((Prod.mk.inj heq).1 ▸ hj)
          simp only [List.zip_cons_cons, List.mem_cons, hne, false_or]
        exact hcongr ▸ ih hnodup hrest failed

section Clones

variable {c : ℕ} {C : ProtocolObject τ} {P : PrivateProtocol τ}

/-- Rules that stay, with other settings behind their references. -/
lemma forall₂_views {rules : List ℕ} {view view' : ℕ → RuleView} {ws : List RuleView}
    (h : List.Forall₂ (RuleView.Agrees lib) (rules.map view) ws)
    (hviews : ∀ i ∈ rules, ∀ w, (view i).Agrees lib w → (view' i).Agrees lib w) :
    List.Forall₂ (RuleView.Agrees lib) (rules.map view') ws := by
  induction rules generalizing ws with
  | nil => exact h
  | cons i rules ih =>
    cases h with
    | cons hw hrest =>
      obtain ⟨hi, hviews⟩ := List.forall_mem_cons.1 hviews
      exact .cons (hi _ hw) (ih hrest hviews)

lemma ProtocolObject.Agrees.of_views (h : C.Agrees lib H P)
    (hviews : ∀ i ∈ C.rules, ∀ w, (H.view i).Agrees lib w → (H'.view i).Agrees lib w) :
    C.Agrees lib H' P :=
  ⟨h.protocol, h.eventTerm, h.termRefs, forall₂_views h.rules hviews⟩

/-- A protocol is replaced by one with the same settings. -/
lemma flags_update {a : ℕ} {o : ProtocolObject τ} (ha : H.protocols a = some o)
    (o' : ProtocolObject τ) (hflags : o'.flags = o.flags) (b : ℕ) :
    (Function.update H.protocols a (some o') b).map (·.flags) =
      (H.protocols b).map (·.flags) := by
  by_cases heq : b = a
  · rw [heq, Function.update_self, ha]
    exact congrArg some hflags
  · rw [Function.update_of_ne heq]

variable [LT τ] [DecidableLT τ]

/-- The rules behind a call. -/
lemma ProtocolHeap.view_call {a : ℕ} {o : ProtocolObject τ} (ha : H.protocols a = some o)
    (x : ProtocolCall τ) (i : ℕ) :
    (H.call lib debug a o x).2.view i =
      if debug = false ∧ (i, true) ∈ o.rules.zip (H.call lib debug a o x).1.failed then
        { H.view i with running := false } else H.view i := by
  have hflags := flags_update ha
    { o with protocol := (callProtocol lib o.eventTerm o.termRefs (o.rules.map H.view)
      o.protocol x).2 } rfl
  by_cases hfailed : debug = false ∧ (i, true) ∈ o.rules.zip (H.call lib debug a o x).1.failed
  · have hrule : (H.call lib debug a o x).2.rules i = { H.rules i with running := false } :=
      if_pos hfailed
    rw [if_pos hfailed, ProtocolHeap.view, hrule]
    exact congrArg (RuleView.mk (H.rules i).rule false) (hflags (H.rules i).parent)
  · have hrule : (H.call lib debug a o x).2.rules i = H.rules i := if_neg hfailed
    rw [if_neg hfailed, ProtocolHeap.view, hrule]
    exact congrArg (RuleView.mk (H.rules i).rule (H.rules i).running)
      (hflags (H.rules i).parent)

/-- A call of the clone. -/
lemma ProtocolObject.Agrees.call (h : C.Agrees lib H P) (hsound : H.Sound)
    (hc : H.protocols c = some C) (debug : Bool) (x : ProtocolCall τ) :
    (H.call lib debug c C x).1 = (P.call lib debug x).1 ∧
      ∃ C', (H.call lib debug c C x).2.protocols c = some C' ∧
        C'.Agrees lib (H.call lib debug c C x).2 (P.call lib debug x).2 := by
  have hextract : extractAll lib (C.rules.map H.view) {} = extractAll lib P.rules {} :=
    funext fun q => funext fun m => extractAll_congr h.rules {} q m
  have hcall : callProtocol lib C.eventTerm C.termRefs (C.rules.map H.view) C.protocol x =
      callProtocol lib P.eventTerm P.termRefs P.rules P.protocol x := by
    rw [callProtocol, callProtocol, hextract, h.protocol, h.eventTerm, h.termRefs]
  have houtcome : (H.call lib debug c C x).1 = (P.call lib debug x).1 := congrArg Prod.fst hcall
  refine ⟨houtcome, _, Function.update_self .., congrArg Prod.snd hcall, h.eventTerm,
    h.termRefs, ?_⟩
  rw [List.map_congr_left fun i _ => ProtocolHeap.view_call hc x i, houtcome]
  exact forall₂_disable (hsound.nodup c C hc) h.rules _

/-- An operation on another protocol. -/
lemma ProtocolObject.Agrees.frame (h : C.Agrees lib H P) (hsound : H.Sound)
    (hc : H.protocols c = some C) {log : List (ℕ × ProtocolOutcome τ)} {e : ProtocolOp τ}
    {s : ProtocolState τ} (hkeeps : H.Keeps lib debug c e) (hother : ∀ x, e ≠ .call c x)
    (hstep : ProtocolHeap.step lib debug (H, log) e = some s) :
    s.1.protocols c = some C ∧ C.Agrees lib s.1 P ∧ outcomesOf c s.2 = outcomesOf c log := by
  have hmade := hsound.made c C hc
  have hadd (o : ProtocolObject τ) : (H.add o).protocols c = some C ∧ C.Agrees lib (H.add o) P := by
    refine ⟨?_, h.of_views fun i hi w hw => ?_⟩
    · rw [ProtocolHeap.protocols_add_of_ne (hsound.lt_nextProtocol hc).ne]
      exact hc
    · rw [ProtocolHeap.view, ProtocolHeap.protocols_add_of_ne]
      · exact hw
      · exact (hsound.parent i (hmade i hi)).ne
  cases e with
  | create flags =>
    obtain rfl := Option.some.inj hstep
    exact ⟨(hadd _).1, (hadd _).2, rfl⟩
  | clone a flags =>
    obtain ⟨o, -, rfl⟩ := Option.map_eq_some_iff.1 hstep
    exact ⟨(hadd _).1, (hadd _).2, rfl⟩
  | setConfig a v k =>
    obtain ⟨o, ho, rfl⟩ := Option.map_eq_some_iff.1 hstep
    obtain ⟨hne, hflags⟩ := hkeeps
    refine ⟨(Function.update_of_ne hne.symm ..).trans hc, h.of_views fun i hi w hw => ?_, rfl⟩
    rw [ProtocolHeap.view, ProtocolHeap.rules_setConfig_of_lt (hmade i hi)]
    dsimp only
    by_cases hparent : (H.rules i).parent = a
    · have hv : (H.view i).parent = some o.flags := by
        rw [ProtocolHeap.view, hparent, ho]
        rfl
      rw [hparent, ProtocolHeap.protocols_setConfig_self]
      exact hw.setFlags hv (hflags o C ho hc i hi hparent)
    · rw [ProtocolHeap.protocols_setConfig_of_ne hparent]
      exact hw
  | destroy a =>
    obtain ⟨o, ho, rfl⟩ := Option.map_eq_some_iff.1 hstep
    obtain ⟨hne, hdetached⟩ := hkeeps
    refine ⟨(Function.update_of_ne hne.symm ..).trans hc, h.of_views fun i hi w hw => ?_, rfl⟩
    by_cases hparent : (H.rules i).parent = a
    · exact hw.detach (hdetached C hc i hi hparent) _
    · rw [ProtocolHeap.view]
      dsimp only
      rw [Function.update_of_ne hparent]
      exact hw
  | call a x =>
    obtain ⟨o, ho, rfl⟩ := Option.map_eq_some_iff.1 hstep
    have hne : a ≠ c := fun heq => hother x (heq ▸ rfl)
    refine ⟨(Function.update_of_ne hne.symm ..).trans hc, h.of_views fun i hi w hw => ?_, ?_⟩
    · rw [ProtocolHeap.view_call ho, if_neg]
      · exact hw
      · rintro ⟨hdebug, hmem⟩
        rcases hkeeps with heq | htrue | hno
        · exact hne heq
        · exact absurd (hdebug.symm.trans htrue) (by decide)
        · exact hno o C ho hc i hi hmem
    · simp [outcomesOf, hne]

/-- A whole run behind the cloning. -/
lemma ProtocolObject.Agrees.run (ops : List (ProtocolOp τ))
    {log log' : List (ℕ × ProtocolOutcome τ)} (hsound : H.Sound) (hc : H.protocols c = some C)
    (h : C.Agrees lib H P) (hkeeps : ∀ e u,
      HappensIn (ProtocolHeap.step lib debug) (H, log) ops e u → u.1.Keeps lib debug c e)
    (hrun : Lib.run (ProtocolHeap.step lib debug) (H, log) ops = some (H', log')) :
    outcomesOf c log' = outcomesOf c log ++ P.outcomes lib debug (callsOf c ops) := by
  induction ops generalizing H log C P with
  | nil =>
    obtain ⟨-, rfl⟩ := Prod.mk.inj (Option.some.inj hrun)
    exact (List.append_nil _).symm
  | cons e ops ih =>
    rw [run_cons, Option.bind_eq_some_iff] at hrun
    obtain ⟨⟨K, log₁⟩, hstep, hrun⟩ := hrun
    have hsound' : K.Sound := hsound.step hstep
    have hkeeps' := fun f u hu => hkeeps f u (happensIn_cons.2 (Or.inr ⟨_, hstep, hu⟩))
    by_cases hcall : ∃ x, e = .call c x
    · obtain ⟨x, rfl⟩ := hcall
      obtain ⟨houtcome, C', hC', hagrees⟩ := h.call hsound hc debug x
      obtain ⟨o, ho, heq⟩ := Option.map_eq_some_iff.1 hstep
      obtain rfl : C = o := Option.some.inj (hc.symm.trans ho)
      obtain ⟨rfl, rfl⟩ := Prod.mk.inj heq
      rw [ih hsound' hC' hagrees hkeeps' hrun, callsOf, if_pos rfl, PrivateProtocol.outcomes,
        ← houtcome]
      simp [outcomesOf]
    · have hother : ∀ x, e ≠ .call c x := fun x heq => hcall ⟨x, heq⟩
      obtain ⟨hC', hagrees, houtcomes⟩ := h.frame hsound hc
        (hkeeps e _ (happensIn_cons.2 (Or.inl ⟨rfl, rfl⟩))) hother hstep
      have hcalls : callsOf c (e :: ops) = callsOf c ops := by
        cases e with
        | call a x => exact if_neg fun heq : a = c => hother x (heq ▸ rfl)
        | _ => rfl
      rw [ih hsound' hC' hagrees hkeeps' hrun, hcalls]
      exact congrArg (· ++ _) houtcomes

end Clones

end Heap

/-- Nothing is in memory. -/
def ProtocolHeap.empty {τ : Type*} : ProtocolHeap τ := { rules := fun _ => default }

end PionCore.Platform
