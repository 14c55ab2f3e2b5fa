/-
# Pipelined requests

Requests that keep the connection alive may follow each other without a wait.  Bytes of the next
request that come with a read are parsed when the answer to the last one is finished.  However a
stream of requests is cut into reads, each of them is handled once, in their order, and as if it
had come alone (`pipelining`).
-/
import PionCore.Net.HTTPServer

namespace PionCore.Net

open PionCore.Lib

/-! ### Requests alone -/

/-- A byte string that is a complete request and keeps the connection alive. -/
structure KeepsAlive (maxContentLength : ℕ) (r : Bytes) : Prop where
  result : (readAll (newReader maxContentLength) [r]).result = some .yes
  rest : (readAll (newReader maxContentLength) [r]).rest = []
  keepAlive : (readAll (newReader maxContentLength) [r]).state.msg.checkKeepAlive = true

/-- The request that is parsed alone, and the error code with which it is handled. -/
def parsedAlone (maxContentLength : ℕ) (r : Bytes) : HTTPMessage × ErrorCode :=
  ((readAll (newReader maxContentLength) [r]).state.msg, .success)

/-- The bytes that the reads of a run deliver. -/
def delivered (events : List ConnectionEvent) : Bytes :=
  events.flatMap fun
    | .read w => w
    | .readError | .finish | .close | .setListening _ => []

lemma delivered_snoc (events : List ConnectionEvent) (e : ConnectionEvent) :
    delivered (events ++ [e]) = delivered events ++ delivered [e] := by
  simp [delivered]

/-- Without a result the error code of a new reader is untouched. -/
lemma ec_readAll {max : ℕ} {pieces : List Bytes} (hpieces : ∀ w ∈ pieces, w ≠ [])
    (h : (readAll (newReader max) pieces).result = none) :
    (readAll (newReader max) pieces).state.ec = .success := by
  have hread := readAll_eq_scan (s := newReader max) (newSession_ready _ _ _ _ _ _) rfl hpieces
  simp only [observed, Prod.mk.injEq] at hread
  rw [hread.2.2.1]
  have hscan := scan_open
    (P := fun t => (t.Reading ∧ (t.InHeaders ∨ t.InBody)) ∧ t.ec = .success)
    (fun t c t' ht hnext => ⟨Session.reading_byteTurn ht.1.1 ht.1.2 hnext,
      (Session.ec_byteTurn ht.1.2 hnext).trans ht.2⟩)
    (s := newReader max) (w := pieces.flatten)
    ⟨⟨Session.reading_newSession (HTTPMessage.newRequest []).kind false max false false .success,
      Or.inl (Or.inl rfl)⟩, rfl⟩ (hread.1.symm.trans h)
  exact hscan.2

namespace KeepsAlive

variable {max : ℕ} {r : Bytes}

lemma ne_nil (h : KeepsAlive max r) : r ≠ [] := by
  rintro rfl
  have hnone : (readAll (newReader max) [[]]).result = none := rfl
  exact absurd (hnone.symm.trans h.result) (by simp)

/-- The request is valid, and there is no error. -/
lemma valid (h : KeepsAlive max r) :
    (parsedAlone max r).1.isValid = true ∧
      (readAll (newReader max) [r]).state.ec = .success := by
  have hone : readAll (newReader max) [r] = (newReader max).read r := feedAll_singleton _ _ _ _
  have hyes := h.result
  rw [hone] at hyes
  have hvalid := Session.isValid_of_read hyes
  rw [parsedAlone, hone]
  refine ⟨hvalid, ?_⟩
  rcases Session.read_newReader max h.ne_nil with ⟨-, hno, -⟩ | ⟨-, hexplains⟩
  · exact absurd (hno.symm.trans hyes) (by simp)
  · rcases hexplains .yes hyes with ⟨-, hec⟩ | ⟨hno, -⟩
    · exact hec
    · cases hno

/-- The machine reads the request to its end, whatever stands behind it. -/
lemma scan_append (h : KeepsAlive max r) (rest : Bytes) :
    observed (scan Session.byteTurn (newReader max) (r ++ rest)) =
      (some .yes, rest, (parsedAlone max r).2, (parsedAlone max r).1) := by
  have hready : (newReader max).Ready := newSession_ready _ _ _ _ _ _
  have hread := readAll_piece_eq_scan hready rfl h.ne_nil
  simp only [observed, Prod.mk.injEq] at hread
  obtain ⟨hresult, hrest, hec, hmsg⟩ := hread
  rw [Lib.scan_append, Scanned.resume_some (hresult.symm.trans h.result), observed, ← hrest, h.rest,
    ← hec, h.valid.2, ← hmsg, List.nil_append]
  rfl

/-- The machine has no result in front of the end. -/
lemma scan_prefix (h : KeepsAlive max r) {d e : Bytes} (heq : r = d ++ e) (he : e ≠ []) :
    (scan Session.byteTurn (newReader max) d).result = none := by
  have hread := h.scan_append []
  rw [List.append_nil, heq] at hread
  exact scan_prefix_none he (congrArg (fun x => x.2.1) hread)

end KeepsAlive

/-! ### Connections -/

namespace HTTPServer

variable {ι : Type*} (server : HTTPServer ι)

/-- A new reader has read some pieces and waits for more. -/
structure Waits (maxContentLength : ℕ) (pieces : List Bytes) (reader : Session) : Prop where
  nonempty : ∀ w ∈ pieces, w ≠ []
  result : (readAll (newReader maxContentLength) pieces).result = none
  state : (readAll (newReader maxContentLength) pieces).state = reader

/-- A connection of a server that listens, on which requests of a list are handled: those that
were handled, and what of the rest was delivered. -/
inductive Serving (requests : List Bytes) (d : Bytes) (s : Served) : Prop
  /-- the pieces of the next request are read -/
  | reading (handled todo pieces : List Bytes) (reader : Session)
      (split : requests = handled ++ todo)
      (passed : s.requests = handled.map (parsedAlone server.maxContentLength))
      (listening : s.isListening = true) (waits : Waits server.maxContentLength pieces reader)
      (task : s.task = .reading reader) (delivered : d = handled.flatten ++ pieces.flatten)
  /-- the last request is answered, and the rest of the buffer is saved -/
  | answering (handled todo : List Bytes) (rest : Bytes) (split : requests = handled ++ todo)
      (passed : s.requests = handled.map (parsedAlone server.maxContentLength))
      (listening : s.isListening = true) (task : s.task = .answering)
      (lifecycle : s.conn.lifecycle = if rest = [] then .keepAlive else .pipelined)
      (position : rest ≠ [] → s.conn.readPosition = rest)
      (delivered : d = handled.flatten ++ rest)

/-- A valid request is passed on. -/
lemma proceed_valid {locked : Bool} {s : Served} {conn : TCPConnection} {request : HTTPMessage}
    (hvalid : request.isValid = true) :
    server.proceed locked s (conn, .finishedReading request .success) =
      { s with
        conn := conn, task := .answering, requests := s.requests ++ [(request, .success)] } := by
  obtain ⟨hlost, hbad⟩ := server.handleRequest_valid conn.isOpen hvalid
  rw [proceed]
  cases ha : server.handleRequest conn.isOpen request .success <;> simp_all

variable {requests : List Bytes} {s : Served}

/-- A buffer is read: either it ends inside the next request, or this request is handled and the
rest of the buffer is saved. -/
lemma serving_buffer {handled todo pieces : List Bytes} {w : Bytes} (locked : Bool)
    (hrequests : ∀ r ∈ requests, KeepsAlive server.maxContentLength r)
    (hsplit : requests = handled ++ todo)
    (hpassed : s.requests = handled.map (parsedAlone server.maxContentLength))
    (hlistening : s.isListening = true) {reader : Session}
    (hwaits : Waits server.maxContentLength pieces reader) (hw : w ≠ [])
    (hpre : handled.flatten ++ (pieces.flatten ++ w) <+: requests.flatten)
    (conn : TCPConnection) :
    server.Serving requests (handled.flatten ++ (pieces.flatten ++ w)) (server.proceed locked s
      (HTTPReader.conclusion conn ({ reader with ec := .success }.read w))) := by
  obtain ⟨hpieces, hunfinished, rfl⟩ := hwaits
  set new := newReader server.maxContentLength with hnew
  have hpieces' : ∀ v ∈ pieces ++ [w], v ≠ [] := by
    intro v hv
    rcases List.mem_append.1 hv with hv | hv
    · exact hpieces v hv
    · rwa [List.mem_singleton.1 hv]
  have hsame : { (readAll new pieces).state with ec := .success } = (readAll new pieces).state := by
    rw [← ec_readAll hpieces hunfinished]
  -- the buffer is one more piece of the request
  have hrest : (readAll new pieces).rest = [] := by
    have hread := readAll_eq_scan (s := new) (newSession_ready _ _ _ _ _ _) rfl hpieces
    simp only [observed, Prod.mk.injEq] at hread
    rw [hread.2.1]
    exact scan_drained _ _ _ (hread.1.symm.trans hunfinished)
  have hsnoc : readAll new (pieces ++ [w]) = (readAll new pieces).state.read w := by
    have h := feedAll_snoc (f := Session.read) (s := new) hunfinished w
    rw [show feedAll id Session.read new pieces = readAll new pieces from rfl, hrest] at h
    exact h
  have hread := readAll_eq_scan (s := new) (newSession_ready _ _ _ _ _ _) rfl hpieces'
  rw [List.flatten_append, List.flatten_singleton] at hread
  rw [hsame, ← hsnoc]
  set d := pieces.flatten ++ w with hd
  -- the next request begins with the delivered bytes, or they begin with it
  have htodo : d <+: todo.flatten := by
    rwa [hsplit, List.flatten_append, List.prefix_append_right_inj] at hpre
  have hdne : d ≠ [] := by
    rw [hd]
    simp [hw]
  obtain ⟨q, todo, rfl⟩ : ∃ q todo', todo = q :: todo' := by
    cases todo with
    | nil => exact absurd (List.prefix_nil.1 htodo) hdne
    | cons q todo => exact ⟨q, todo, rfl⟩
  have hq : KeepsAlive server.maxContentLength q := hrequests q (by simp [hsplit])
  have hinside : ∀ e, q = d ++ e → e ≠ [] → server.Serving requests (handled.flatten ++ d)
      (server.proceed locked s (HTTPReader.conclusion conn (readAll new (pieces ++ [w])))) := by
    intro e heq he
    have hnone : (readAll new (pieces ++ [w])).result = none :=
      (congrArg Prod.fst hread).trans (hq.scan_prefix heq he)
    simp only [HTTPReader.conclusion, hnone, proceed]
    exact .reading handled (q :: todo) (pieces ++ [w]) _ hsplit hpassed hlistening
      ⟨hpieces', hnone, rfl⟩ rfl (by simp [hd])
  have hended : ∀ rest, d = q ++ rest → server.Serving requests (handled.flatten ++ d)
      (server.proceed locked s (HTTPReader.conclusion conn (readAll new (pieces ++ [w])))) := by
    intro rest heq
    rw [heq, hq.scan_append rest] at hread
    simp only [observed, Prod.mk.injEq] at hread
    obtain ⟨hresult, hrest, hec, hmsg⟩ := hread
    have hkeep : (parsedAlone server.maxContentLength q).1.checkKeepAlive = true := hq.keepAlive
    simp only [HTTPReader.conclusion, hresult, hrest, hec, hmsg]
    rw [show (parsedAlone server.maxContentLength q).2 = .success from rfl,
      server.proceed_valid hq.valid.1]
    refine .answering (handled ++ [q]) todo rest (by simp [hsplit]) ?_ hlistening rfl ?_ ?_ ?_
    · simp [hpassed, parsedAlone]
    · simp only [HTTPReader.keep, hkeep, if_true]
      split_ifs <;> rfl
    · intro hne
      simp only [HTTPReader.keep, hkeep, if_true, if_neg hne]
      rfl
    · simp [heq]
  obtain ⟨t, ht⟩ := htodo
  rw [List.flatten_cons] at ht
  rcases List.append_eq_append_iff.1 ht with ⟨e, he, -⟩ | ⟨rest, hrest, -⟩
  · rcases eq_or_ne e [] with rfl | hne
    · exact hended [] (by rw [he]; simp)
    · exact hinside e he hne
  · exact hended rest hrest

/-- The events of a connection on which reads arrive and requests are answered. -/
def IsTransfer (e : ConnectionEvent) : Prop := e = .finish ∨ ∃ w, e = .read w

lemma serving_step {d : Bytes} {s' : Served} {e : ConnectionEvent}
    (hrequests : ∀ r ∈ requests, KeepsAlive server.maxContentLength r)
    (hs : server.Serving requests d s) (he : IsTransfer e) (h : server.step s e = some s')
    (hpre : d ++ delivered [e] <+: requests.flatten) :
    server.Serving requests (d ++ delivered [e]) s' := by
  rcases server.step_cases h with ⟨w, reader, rfl, htask, ⟨hw, -⟩, rfl⟩ | ⟨reader, rfl, -⟩ |
    ⟨rfl, htask, rfl⟩ | ⟨rfl, -⟩ | ⟨b, rfl, -⟩
  · have hd : delivered [.read w] = w := List.append_nil w
    rw [hd] at hpre ⊢
    cases hs with
    | answering handled todo rest hsplit hpassed hlistening htask' =>
      rw [htask'] at htask
      cases htask
    | reading handled todo pieces _ hsplit hpassed hlistening hwaits htask' hdelivered =>
      obtain rfl : _ = reader := Task.reading.inj (htask'.symm.trans htask)
      rw [hdelivered, List.append_assoc] at hpre ⊢
      exact server.serving_buffer false hrequests hsplit hpassed hlistening hwaits hw hpre s.conn
  · rcases he with he | ⟨w, he⟩ <;> cases he
  · have hd : delivered [.finish] = [] := rfl
    rw [hd, List.append_nil] at hpre ⊢
    cases hs with
    | reading handled todo pieces _ hsplit hpassed hlistening hwaits htask' =>
      rw [htask'] at htask
      cases htask
    | answering handled todo rest hsplit hpassed hlistening _ hlifecycle hposition hdelivered =>
      have hkeep : s.conn.getKeepAlive = true := by
        rw [TCPConnection.getKeepAlive, hlifecycle]
        split_ifs <;> rfl
      rw [finishConnection, if_pos ⟨hlistening, hkeep⟩, handleConnection, HTTPReader.receive_eq]
      by_cases hrest : rest = []
      · have hpipe : ¬ s.conn.getPipelined = true := by
          simp [TCPConnection.getPipelined, hlifecycle, hrest]
        rw [if_neg hpipe]
        exact .reading handled todo [] _ hsplit hpassed hlistening ⟨by simp, rfl, rfl⟩ rfl
          (by simp [hdelivered, hrest])
      · have hpipe : s.conn.getPipelined = true := by
          simp [TCPConnection.getPipelined, hlifecycle, hrest]
        rw [if_pos hpipe, hposition hrest]
        rw [hdelivered] at hpre ⊢
        have hwaits : Waits server.maxContentLength [] (newReader server.maxContentLength) :=
          ⟨by simp, rfl, rfl⟩
        exact server.serving_buffer true hrequests hsplit hpassed hlistening hwaits hrest hpre
          (s.conn.setLifecycle .close)
  · rcases he with he | ⟨w, he⟩ <;> cases he
  · rcases he with he | ⟨w, he⟩ <;> cases he

/-- When all of the requests are delivered and none is being answered, all are handled. -/
lemma serving_end (hrequests : ∀ r ∈ requests, KeepsAlive server.maxContentLength r)
    (hs : server.Serving requests requests.flatten s) (htask : s.task ≠ .answering) :
    s.requests = requests.map (parsedAlone server.maxContentLength) := by
  cases hs with
  | answering handled todo rest _ _ _ htask' => exact absurd htask' htask
  | reading handled todo pieces _ hsplit hpassed _ hwaits _ hdelivered =>
    rw [hsplit, List.flatten_append, List.append_cancel_left_eq] at hdelivered
    cases todo with
    | nil => rw [hpassed, hsplit, List.append_nil]
    | cons q todo =>
      have hq : KeepsAlive server.maxContentLength q := hrequests q (by simp [hsplit])
      have hread := readAll_eq_scan (s := newReader server.maxContentLength)
        (newSession_ready _ _ _ _ _ _) rfl hwaits.nonempty
      rw [← hdelivered, List.flatten_cons, hq.scan_append] at hread
      have hyes := (congrArg Prod.fst hread).symm.trans hwaits.result
      cases hyes

/-- However a stream of requests that keep the connection alive is cut into reads, the requests
are handled in their order, each once and as if it had come alone: at any time those at the front
of the stream, and in the end all of them. -/
theorem pipelining (hrequests : ∀ r ∈ requests, KeepsAlive server.maxContentLength r)
    (events : List ConnectionEvent) (hevents : ∀ e ∈ events, IsTransfer e)
    (hdelivered : delivered events <+: requests.flatten)
    (h : run server.step server.accepted events = some s) :
    s.requests <+: requests.map (parsedAlone server.maxContentLength) ∧
      (s.task = .answering ∨ ∃ reader, s.task = .reading reader) ∧
      (delivered events = requests.flatten → s.task ≠ .answering →
        s.requests = requests.map (parsedAlone server.maxContentLength)) := by
  have hserving : server.Serving requests (delivered events) s := by
    refine run_induction (P := fun events s => (∀ e ∈ events, IsTransfer e) →
      delivered events <+: requests.flatten → server.Serving requests (delivered events) s)
      ?_ ?_ h hevents hdelivered
    · intro _ _
      exact .reading [] requests [] _ rfl rfl rfl ⟨by simp, rfl, rfl⟩ rfl rfl
    · intro es e t t' _ ih hstep hes hpre
      rw [delivered_snoc] at hpre ⊢
      have hbefore := ih (fun f hf => hes f (List.mem_append_left _ hf))
        ((List.prefix_append _ _).trans hpre)
      exact server.serving_step hrequests hbefore (hes e (by simp)) hstep hpre
  have hpassed : ∀ handled todo, requests = handled ++ todo →
      s.requests = handled.map (parsedAlone server.maxContentLength) →
      s.requests <+: requests.map (parsedAlone server.maxContentLength) := by
    intro handled todo hsplit hpassed
    rw [hpassed, hsplit, List.map_append]
    exact List.prefix_append _ _
  refine ⟨?_, ?_, fun hall htask => server.serving_end hrequests (hall ▸ hserving) htask⟩
  · cases hserving with
    | reading handled todo _ _ hsplit hs => exact hpassed handled todo hsplit hs
    | answering handled todo _ hsplit hs => exact hpassed handled todo hsplit hs
  · cases hserving with
    | reading _ _ _ _ _ _ _ _ htask => exact Or.inr ⟨_, htask⟩
    | answering _ _ _ _ _ _ htask => exact Or.inl htask

/-- Two requests in reads that are cut inside of each of them, and the answers to both. -/
theorem pipelining_two :
    let server : HTTPServer Unit := {}
    let requests := [ascii "GET /a HTTP/1.1\r\n\r\n",
      ascii "PUT /b HTTP/1.1\r\nContent-Length: 3\r\n\r\nabc"]
    let events := [.read (ascii "GET /a HT"), .read (ascii "TP/1.1\r\n\r\nPUT /b HTTP/1.1\r\nCont"),
      .finish, .read (ascii "ent-Length: 3\r\n\r\nab"), .read (ascii "c"), .finish]
    let s := (run server.step server.accepted events).getD {}
    s.requests <+: requests.map (parsedAlone server.maxContentLength) ∧
      (s.task = .answering ∨ ∃ reader, s.task = .reading reader) ∧
      (delivered events = requests.flatten → s.task ≠ .answering →
        s.requests = requests.map (parsedAlone server.maxContentLength)) := by
  intro server requests events s
  have hsome : (run server.step server.accepted events).isSome = true := by decide +kernel
  obtain ⟨t, ht⟩ := Option.isSome_iff_exists.1 hsome
  have hrun : run server.step server.accepted events = some s := by
    simp only [s, ht, Option.getD_some]
  refine server.pipelining ?_ events ?_ ?_ hrun
  · intro r hr
    simp only [requests, List.mem_cons, List.not_mem_nil, or_false] at hr
    rcases hr with rfl | rfl <;>
      exact ⟨by decide +kernel, by decide +kernel, by decide +kernel⟩
  · intro e he
    simp only [events, List.mem_cons, List.not_mem_nil, or_false] at he
    rcases he with rfl | rfl | rfl | rfl | rfl | rfl <;> simp [IsTransfer]
  · decide +kernel

end HTTPServer

end PionCore.Net
