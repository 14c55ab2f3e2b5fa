/-
# The server and its connections

`HTTPServer::handleRequest` chooses a handler for a request.  `TCPServer::finishConnection` is
called when a request has been answered: a connection that is kept alive is handed to a new reader,
while the mutex of the server is locked.
-/
import PionCore.Lib.Runs
import PionCore.Net.HTTPAuth
import PionCore.Net.HTTPReader

namespace PionCore.Net

open PionCore.Lib

/-! ### Requests -/

/-- `HTTPServer`, with the maps as `std::map`s.  Of the authentication object there is the result
of its `handleRequest`. -/
structure HTTPServer (ι : Type*) where
  resources : Std.TreeMap Bytes ι := {}
  redirects : Std.TreeMap Bytes Bytes := {}
  auth : Option (HTTPMessage → Bool) := none
  maxContentLength : ℕ := defaultContentMax

/-- How `handleRequest` ends. -/
inductive Answer (ι : Type*) where
  /-- `m_bad_request_handler` is called -/
  | badRequest
  /-- `TCPConnection::finish` is called -/
  | lost
  /-- `m_server_error_handler` is called -/
  | serverError (errorMsg : Bytes)
  /-- the authentication object has sent a response -/
  | unauthorized
  /-- the handler of a resource is called -/
  | handler (handler : ι) (resource : Bytes) (request : HTTPMessage)
  /-- `m_not_found_handler` is called -/
  | notFound (request : HTTPMessage)

def ErrorCode.isParserError : ErrorCode → Bool
  | .parser _ => true
  | .success | .ioError => false

namespace HTTPServer

variable {ι : Type*}

/-- `MAX_REDIRECTS`. -/
def maxRedirects : ℕ := 10

def addResource (server : HTTPServer ι) (resource : Bytes) (handler : ι) : HTTPServer ι :=
  { server with
    resources := server.resources.insertIfNew (stripTrailingSlash resource) handler }

def removeResource (server : HTTPServer ι) (resource : Bytes) : HTTPServer ι :=
  { server with resources := server.resources.erase (stripTrailingSlash resource) }

def addRedirect (server : HTTPServer ι) (requested new : Bytes) : HTTPServer ι :=
  { server with
    redirects := server.redirects.insertIfNew (stripTrailingSlash requested)
      (stripTrailingSlash new) }

/-- `findRequestHandler`: the entries up to the resource are tried, the last of them first. -/
def findRequestHandler (server : HTTPServer ι) (resource : Bytes) : Option ι :=
  ((server.resources.toList.filter fun entry => (compare entry.1 resource).isLE).reverse.find?
    fun entry => coversResource resource entry.1).map Prod.snd

/-- The loop over the redirects, with the number of redirects that are still allowed. -/
def applyRedirects (server : HTTPServer ι) :
    ℕ → Bytes → HTTPMessage → Option (Bytes × HTTPMessage)
  | n, resourceRequested, request =>
      match server.redirects[resourceRequested]? with
      | none => some (resourceRequested, request)
      | some resource =>
          match n with
          | 0 => none
          | n + 1 => server.applyRedirects n resource (request.changeResource resource)

/-- The request is refused by the authentication object, which has answered it. -/
def refuses (server : HTTPServer ι) (request : HTTPMessage) : Bool :=
  match server.auth with
  | none => false
  | some handleRequest => ! handleRequest request

def handleRequest (server : HTTPServer ι) (isOpen : Bool) (request : HTTPMessage)
    (ec : ErrorCode) : Answer ι :=
  if ec ≠ .success ∨ request.isValid = false then
    if isOpen ∧ ec.isParserError then .badRequest else .lost
  else
    match server.applyRedirects maxRedirects (stripTrailingSlash request.getResource) request with
    | none =>
        .serverError (ascii ("Maximum number of redirects (HTTPServer::MAX_REDIRECTS)" ++
          " exceeded for requested resource"))
    | some (resourceRequested, request) =>
        if server.refuses request then .unauthorized
        else
          match server.findRequestHandler resourceRequested with
          | some handler => .handler handler resourceRequested request
          | none => .notFound request

/-- A valid request is neither bad nor lost. -/
lemma handleRequest_valid (server : HTTPServer ι) (isOpen : Bool) {request : HTTPMessage}
    (hvalid : request.isValid = true) :
    server.handleRequest isOpen request .success ≠ .lost ∧
      server.handleRequest isOpen request .success ≠ .badRequest := by
  rw [handleRequest]
  rw [if_neg (by simp [hvalid])]
  split
  · simp
  · split
    · simp
    · split <;> simp

end HTTPServer

/-! ### Connections -/

/-- What a connection waits for. -/
inductive Task where
  /-- bytes for a reader -/
  | reading (reader : Session)
  /-- the end of the answer to a request -/
  | answering
  /-- nothing: the connection has been removed from the pool -/
  | finished
  /-- the mutex of the server, which is locked by the same thread -/
  | deadlocked
deriving DecidableEq

/-- A connection of a server, and the requests that were passed to `handleRequest` on it. -/
structure Served where
  conn : TCPConnection := {}
  task : Task := .finished
  requests : List (HTTPMessage × ErrorCode) := []
  isListening : Bool := true
deriving DecidableEq

/-- What can happen on a connection.  Requests are answered at any time behind the call of their
handler. -/
inductive ConnectionEvent where
  | read (w : Bytes)
  | readError
  | finish
  | close
  | setListening (b : Bool)
deriving DecidableEq

namespace HTTPServer

variable {ι : Type*} (server : HTTPServer ι)

/-- The reader goes on, or the request that it has read is handled.  A connection that is lost is
finished at once, and `finishConnection` locks the mutex. -/
def proceed (locked : Bool) (s : Served) (x : TCPConnection × ReadResult) : Served :=
  match x.2 with
  | .readBytes reader => { s with conn := x.1, task := .reading reader }
  | .finishedReading request ec =>
      let s := { s with conn := x.1, task := .answering, requests := s.requests ++ [(request, ec)] }
      match server.handleRequest x.1.isOpen request ec with
      | .badRequest => { s with conn := x.1.setLifecycle .close }
      | .lost =>
          -- the connection is not kept alive, so that it is removed from the pool
          { s with
            conn := x.1.setLifecycle .close, task := if locked then .deadlocked else .finished }
      | .serverError _ | .unauthorized | .handler _ _ _ | .notFound _ => s

/-- `handleConnection`. -/
def handleConnection (locked : Bool) (s : Served) : Served :=
  server.proceed locked s (HTTPReader.receive s.conn (newReader server.maxContentLength))

/-- `finishConnection`, which has locked the mutex. -/
def finishConnection (s : Served) : Served :=
  if s.isListening ∧ s.conn.getKeepAlive then server.handleConnection true s
  else { s with task := .finished }

/-- A connection that has been accepted. -/
def accepted : Served := server.handleConnection false {}

def step (s : Served) : ConnectionEvent → Option Served
  | .read w =>
      match s.task with
      | .reading reader =>
          if w ≠ [] ∧ w.length ≤ readBufferSize then
            some (server.proceed false s (HTTPReader.consumeRead s.conn reader w))
          else none
      | .answering | .finished | .deadlocked => none
  | .readError =>
      match s.task with
      | .reading reader =>
          some (server.proceed false s (HTTPReader.handleReadError s.conn reader .ioError))
      | .answering | .finished | .deadlocked => none
  | .finish =>
      match s.task with
      | .answering => some (server.finishConnection s)
      | .reading _ | .finished | .deadlocked => none
  | .close => some { s with conn := { s.conn with isOpen := false } }
  | .setListening b => some { s with isListening := b }

/-- What a step can do. -/
lemma step_cases {s s' : Served} {e : ConnectionEvent} (h : server.step s e = some s') :
    (∃ w reader, e = .read w ∧ s.task = .reading reader ∧ (w ≠ [] ∧ w.length ≤ readBufferSize) ∧
      s' = server.proceed false s
        (HTTPReader.conclusion s.conn ({ reader with ec := .success }.read w))) ∨
    (∃ reader, e = .readError ∧ s.task = .reading reader ∧
      s' = server.proceed false s (HTTPReader.handleReadError s.conn reader .ioError)) ∨
    (e = .finish ∧ s.task = .answering ∧ s' = server.finishConnection s) ∨
    (e = .close ∧ s' = { s with conn := { s.conn with isOpen := false } }) ∨
    ∃ b, e = .setListening b ∧ s' = { s with isListening := b } := by
  unfold step at h
  cases e with
  | read w =>
    cases ht : s.task with
    | reading reader =>
      simp only [ht] at h
      split_ifs at h with hw
      rw [HTTPReader.consumeRead_eq] at h
      exact Or.inl ⟨w, reader, rfl, rfl, hw, (Option.some.inj h).symm⟩
    | answering => simp [ht] at h
    | finished => simp [ht] at h
    | deadlocked => simp [ht] at h
  | readError =>
    cases ht : s.task with
    | reading reader =>
      simp only [ht] at h
      exact Or.inr (Or.inl ⟨reader, rfl, rfl, (Option.some.inj h).symm⟩)
    | answering => simp [ht] at h
    | finished => simp [ht] at h
    | deadlocked => simp [ht] at h
  | finish =>
    cases ht : s.task with
    | reading reader => simp [ht] at h
    | answering =>
      simp only [ht] at h
      exact Or.inr (Or.inr (Or.inl ⟨rfl, rfl, (Option.some.inj h).symm⟩))
    | finished => simp [ht] at h
    | deadlocked => simp [ht] at h
  | close => exact Or.inr (Or.inr (Or.inr (Or.inl ⟨rfl, (Option.some.inj h).symm⟩)))
  | setListening b => exact Or.inr (Or.inr (Or.inr (Or.inr ⟨b, rfl, (Option.some.inj h).symm⟩)))

@[simp] lemma isOpen_proceed (locked : Bool) (s : Served) (x : TCPConnection × ReadResult) :
    (server.proceed locked s x).conn.isOpen = x.1.isOpen := by
  rw [proceed]
  split
  · rfl
  · split <;> rfl

/-- Only `close` closes a connection. -/
lemma isOpen_step {s s' : Served} {e : ConnectionEvent} (h : server.step s e = some s')
    (he : e ≠ .close) : s'.conn.isOpen = s.conn.isOpen := by
  rcases server.step_cases h with ⟨w, reader, -, -, -, rfl⟩ | ⟨reader, -, -, rfl⟩ | ⟨-, -, rfl⟩ |
    ⟨rfl, -⟩ | ⟨b, -, rfl⟩
  · simp
  · simp
  · rw [finishConnection, handleConnection]
    split_ifs <;> simp
  · exact absurd rfl he
  · rfl

lemma isOpen_run {events : List ConnectionEvent} (hclose : .close ∉ events) {s s' : Served}
    (h : run server.step s events = some s') (hs : s.conn.isOpen = true) :
    s'.conn.isOpen = true := by
  refine run_induction (P := fun events t => .close ∉ events → t.conn.isOpen = true)
    (fun _ => hs) (fun es e t t' _ ih hstep hnot => ?_) h hclose
  rw [List.mem_append, not_or, List.mem_singleton] at hnot
  rw [server.isOpen_step hstep fun h => hnot.2 h.symm]
  exact ih hnot.1

end HTTPServer

end PionCore.Net
