/-
# The response writer

`HTTPResponseWriter`: an answer is sent by asynchronous writes, and the finished handler of the
writer, which is `TCPConnection::finish`, is called behind the last of them.  `sendMoreData` also
calls it when the connection is lost, and goes on with the write.
-/
import PionCore.Net.HTTPServer
import PionCore.Net.HTTPWriter

namespace PionCore.Net

open PionCore.Lib

/-- The function that is called when an asynchronous write is done. -/
inductive WriteHandler where
  /-- `HTTPResponseWriter::handleWrite`, see `bindToWriteHandler` -/
  | handleWrite
  /-- the function that was passed to `sendChunk` -/
  | sendHandler
deriving DecidableEq

/-- A response writer with its connection.  `writes` are the asynchronous writes that are not
done, with their handlers; `finished` are the codes with which the finished handler was called. -/
structure HTTPResponseWriter where
  writer : HTTPWriter := {}
  served : Served := {}
  writes : List (Bytes × WriteHandler) := []
  finished : List ErrorCode := []
  /-- `send` or `sendFinalChunk` was called, behind which the writer is not used any more -/
  terminated : Bool := false
deriving DecidableEq

/-- What can happen to a response: calls of the functions of the writer, the end of one of the
writes, and what happens on the connection. -/
inductive WriterEvent where
  | clear
  | write (p : Payload)
  | sendChunk
  | send
  | sendFinalChunk
  | written (i : ℕ) (ec : ErrorCode)
  | connection (e : ConnectionEvent)
deriving DecidableEq

/-- The calls that send what is buffered. -/
def WriterEvent.isSend : WriterEvent → Bool
  | .sendChunk | .send | .sendFinalChunk => true
  | .clear | .write _ | .written _ _ | .connection _ => false

namespace HTTPResponseWriter

variable {ι : Type*} (server : HTTPServer ι) (prepareBuffers : HTTPWriter → TCPConnection → Bytes)

/-- `finishedWriting`: the handler is `TCPConnection::finish`. -/
def finishedWriting (r : HTTPResponseWriter) (ec : ErrorCode) : HTTPResponseWriter :=
  { r with finished := r.finished ++ [ec], served := server.finishConnection r.served }

/-- `handleWrite`. -/
def handleWrite (r : HTTPResponseWriter) (writeError : ErrorCode) : HTTPResponseWriter :=
  r.finishedWriting server writeError

/-- `HTTPWriter::sendMoreData`. -/
def sendMoreData (r : HTTPResponseWriter) (sendFinalChunk : Bool) (handler : WriteHandler) :
    HTTPResponseWriter :=
  let r := if ! r.served.conn.isOpen then r.finishedWriting server .ioError else r
  let header := prepareBuffers r.writer.flushContentStream r.served.conn
  let (buffers, writer) := r.writer.sendMoreData header sendFinalChunk
  { r with writer := writer, writes := r.writes ++ [(buffers, handler)] }

def sendChunk (r : HTTPResponseWriter) : HTTPResponseWriter :=
  let r := { r with writer := { r.writer with sendingChunks := true } }
  let r :=
    if ! r.writer.clientSupportsChunks then
      { r with served := { r.served with conn := r.served.conn.setLifecycle .close } }
    else r
  r.sendMoreData server prepareBuffers false .sendHandler

def send (r : HTTPResponseWriter) : HTTPResponseWriter :=
  r.sendMoreData server prepareBuffers false .handleWrite

def sendFinalChunk (r : HTTPResponseWriter) : HTTPResponseWriter :=
  { r with writer := { r.writer with sendingChunks := true } }.sendMoreData
    server prepareBuffers true .handleWrite

/-- A write is done, and its handler is called. -/
def written (r : HTTPResponseWriter) (i : ℕ) (ec : ErrorCode) : Option HTTPResponseWriter :=
  match r.writes[i]? with
  | none => none
  | some (_, handler) =>
      let r := { r with writes := r.writes.eraseIdx i }
      match handler with
      | .handleWrite => some (r.handleWrite server ec)
      | .sendHandler => some r

def step (r : HTTPResponseWriter) : WriterEvent → Option HTTPResponseWriter
  | .clear => if r.terminated then none else some { r with writer := r.writer.clear }
  | .write p => if r.terminated then none else some { r with writer := r.writer.writePayload p }
  | .sendChunk => if r.terminated then none else some (r.sendChunk server prepareBuffers)
  | .send =>
      if r.terminated then none else some { r.send server prepareBuffers with terminated := true }
  | .sendFinalChunk =>
      if r.terminated then none
      else some { r.sendFinalChunk server prepareBuffers with terminated := true }
  | .written i ec => r.written server i ec
  | .connection e =>
      -- a connection is finished by its writer
      if e = .finish then none
      else (server.step r.served e).map fun served => { r with served := served }

/-! ### Counting -/

/-- The writes behind which the finished handler is called. -/
def pending (r : HTTPResponseWriter) : ℕ := r.writes.countP fun x => x.2 = .handleWrite

/-- The calls of the finished handler, those included that a write will end with. -/
def calls (r : HTTPResponseWriter) : ℕ := r.finished.length + r.pending

/-- The calls that a send adds. -/
def added (r : HTTPResponseWriter) (handler : WriteHandler) : ℕ :=
  (if r.served.conn.isOpen then 0 else 1) + (if handler = .handleWrite then 1 else 0)

lemma calls_sendMoreData (r : HTTPResponseWriter) (last : Bool) (handler : WriteHandler) :
    (r.sendMoreData server prepareBuffers last handler).calls = r.calls + r.added handler := by
  rw [sendMoreData, added]
  cases ho : r.served.conn.isOpen <;> cases handler <;>
    simp [calls, pending, finishedWriting, List.countP_append] <;> omega

lemma terminated_sendMoreData (r : HTTPResponseWriter) (last : Bool) (handler : WriteHandler) :
    (r.sendMoreData server prepareBuffers last handler).terminated = r.terminated := by
  rw [sendMoreData, finishedWriting]
  cases r.served.conn.isOpen <;> rfl

lemma calls_sendChunk (r : HTTPResponseWriter) :
    (r.sendChunk server prepareBuffers).calls = r.calls + r.added .sendHandler ∧
      (r.sendChunk server prepareBuffers).terminated = r.terminated := by
  rw [sendChunk]
  dsimp only
  rw [calls_sendMoreData, terminated_sendMoreData]
  split_ifs <;> exact ⟨rfl, rfl⟩

lemma calls_written {r r' : HTTPResponseWriter} {i : ℕ} {ec : ErrorCode}
    (h : r.written server i ec = some r') : r'.calls = r.calls ∧ r'.terminated = r.terminated := by
  rw [written] at h
  cases hi : r.writes[i]? with
  | none => simp [hi] at h
  | some x =>
    obtain ⟨buffers, handler⟩ := x
    obtain ⟨hlt, hget⟩ := List.getElem?_eq_some_iff.1 hi
    -- the write that is done is counted up to now, and its call from now on
    have hcount : r.pending = (r.writes.eraseIdx i).countP (fun x => x.2 = .handleWrite) +
        (if handler = .handleWrite then 1 else 0) := by
      have hperm := (List.getElem_cons_eraseIdx_perm hlt).countP_eq (fun x => x.2 = .handleWrite)
      rw [hget, List.countP_cons] at hperm
      simpa [pending] using hperm.symm
    simp only [hi] at h
    cases handler with
    | handleWrite =>
      obtain rfl := Option.some.inj h
      refine ⟨?_, rfl⟩
      simp only [calls, hcount]
      simp [handleWrite, finishedWriting, pending]
      omega
    | sendHandler =>
      obtain rfl := Option.some.inj h
      refine ⟨?_, rfl⟩
      simp only [calls, hcount]
      simp [pending]

/-! ### Runs -/

variable {server prepareBuffers}

/-- A send adds the call of its last write, and one more on a lost connection. -/
lemma calls_step {r r' : HTTPResponseWriter} {e : WriterEvent}
    (h : step server prepareBuffers r e = some r') :
    e.isSend = false ∧ r'.calls = r.calls ∧ r'.terminated = r.terminated ∨
    e.isSend = true ∧ r.terminated = false ∧
      r'.calls = r.calls + (if r.served.conn.isOpen then 0 else 1) +
        (if r'.terminated then 1 else 0) := by
  cases e with
  | clear | write p =>
    simp only [step] at h
    split_ifs at h
    obtain rfl := Option.some.inj h
    exact Or.inl ⟨rfl, rfl, rfl⟩
  | sendChunk =>
    simp only [step] at h
    split_ifs at h with hterm
    obtain rfl := Option.some.inj h
    obtain ⟨hcalls, hsame⟩ := r.calls_sendChunk server prepareBuffers
    have hfalse : r.terminated = false := by simpa using hterm
    refine Or.inr ⟨rfl, hfalse, ?_⟩
    rw [hcalls, hsame, hfalse]
    simp [added]
  | send =>
    simp only [step] at h
    split_ifs at h with hterm
    obtain rfl := Option.some.inj h
    refine Or.inr ⟨rfl, by simpa using hterm, ?_⟩
    exact (r.calls_sendMoreData server prepareBuffers false .handleWrite).trans
      (by simp [added, Nat.add_assoc])
  | sendFinalChunk =>
    simp only [step] at h
    split_ifs at h with hterm
    obtain rfl := Option.some.inj h
    refine Or.inr ⟨rfl, by simpa using hterm, ?_⟩
    exact (calls_sendMoreData server prepareBuffers _ true .handleWrite).trans
      (by simp [added, calls, pending, Nat.add_assoc])
  | written i ec => exact Or.inl ⟨rfl, calls_written server h⟩
  | connection e =>
    simp only [step] at h
    split_ifs at h
    obtain ⟨served, -, rfl⟩ := Option.map_eq_some_iff.1 h
    exact Or.inl ⟨rfl, rfl, rfl⟩

variable (server prepareBuffers)

/-- A writer that has sent nothing, on a connection in any state. -/
def start (writer : HTTPWriter) (served : Served) : HTTPResponseWriter :=
  { writer := writer, served := served }

/-- The states in which something is sent in a run. -/
def SendsAt (r : HTTPResponseWriter) (events : List WriterEvent) (u : HTTPResponseWriter) : Prop :=
  ∃ e : WriterEvent, e.isSend = true ∧ HappensIn (step server prepareBuffers) r events e u

variable {server prepareBuffers}

lemma sendsAt_snoc {r u : HTTPResponseWriter} {events : List WriterEvent} {e : WriterEvent} :
    SendsAt server prepareBuffers r (events ++ [e]) u ↔
      SendsAt server prepareBuffers r events u ∨
        e.isSend = true ∧ run (step server prepareBuffers) r events = some u := by
  rw [SendsAt]
  constructor
  · rintro ⟨f, hf, hu⟩
    rcases happensIn_snoc.1 hu with hbefore | ⟨rfl, hlast⟩
    · exact Or.inl ⟨f, hf, hbefore⟩
    · exact Or.inr ⟨hf, hlast⟩
  · rintro (⟨f, hf, hu⟩ | ⟨hf, hu⟩)
    · exact ⟨f, hf, happensIn_snoc.2 (Or.inl hu)⟩
    · exact ⟨e, hf, happensIn_snoc.2 (Or.inr ⟨rfl, hu⟩)⟩

/-- The calls of the finished handler: one for the last send, and one more for each send on a lost
connection. -/
lemma calls_run {writer : HTTPWriter} {served : Served} {r : HTTPResponseWriter}
    {events : List WriterEvent}
    (h : run (step server prepareBuffers) (start writer served) events = some r) :
    (if r.terminated then 1 else 0) ≤ r.calls ∧
      (r.calls = (if r.terminated then 1 else 0) ↔
        ∀ u, SendsAt server prepareBuffers (start writer served) events u →
          u.served.conn.isOpen = true) := by
  refine run_induction (P := fun events r => (if r.terminated then 1 else 0) ≤ r.calls ∧
    (r.calls = (if r.terminated then 1 else 0) ↔
      ∀ u, SendsAt server prepareBuffers (start writer served) events u →
        u.served.conn.isOpen = true)) ?_ ?_ h
  · refine ⟨le_refl 0, fun _ u => ?_, fun _ => rfl⟩
    rintro ⟨e, -, hu⟩
    exact absurd hu not_happensIn_nil
  · rintro events e r r' hrun ⟨hle, hiff⟩ hstep
    rcases calls_step hstep with ⟨hsend, hcalls, hterm⟩ | ⟨hsend, hfalse, hcalls⟩
    · rw [hcalls, hterm]
      refine ⟨hle, hiff.trans ?_⟩
      constructor
      · intro hall u hu
        rcases sendsAt_snoc.1 hu with hu | ⟨he, -⟩
        · exact hall u hu
        · rw [hsend] at he
          cases he
      · exact fun hall u hu => hall u (sendsAt_snoc.2 (Or.inl hu))
    · rw [hfalse] at hiff
      have hiff' : r.calls = 0 ↔ ∀ u,
          SendsAt server prepareBuffers (start writer served) events u →
            u.served.conn.isOpen = true := by simpa using hiff
      refine ⟨by omega, ?_, ?_⟩
      · intro hone u hu
        have hzero : r.calls = 0 := by omega
        rcases sendsAt_snoc.1 hu with hu | ⟨-, hu⟩
        · exact hiff'.1 hzero u hu
        · obtain rfl := Option.some.inj (hrun.symm.trans hu)
          by_contra hclosed
          rw [if_neg hclosed] at hcalls
          omega
      · intro hall
        have hzero := hiff'.2 fun u hu => hall u (sendsAt_snoc.2 (Or.inl hu))
        have hopen := hall r (sendsAt_snoc.2 (Or.inr ⟨hsend, hrun⟩))
        rw [hopen] at hcalls
        simpa [hzero] using hcalls

/-- If the connection is open whenever something is sent, then the finished handler is never
called twice.  Behind the last write of a response it was called once, if and only if this is so. -/
theorem finished_once (writer : HTTPWriter) (served : Served) (events : List WriterEvent)
    (r : HTTPResponseWriter)
    (h : run (step server prepareBuffers) (start writer served) events = some r) :
    ((∀ u, SendsAt server prepareBuffers (start writer served) events u →
        u.served.conn.isOpen = true) → r.finished.length ≤ 1) ∧
      (r.terminated = true → r.writes = [] → (r.finished.length = 1 ↔
        ∀ u, SendsAt server prepareBuffers (start writer served) events u →
          u.served.conn.isOpen = true)) := by
  obtain ⟨-, hiff⟩ := calls_run h
  constructor
  · intro hopen
    have hcalls := hiff.2 hopen
    rw [calls] at hcalls
    split_ifs at hcalls <;> omega
  · intro hterm hdone
    have hcalls : r.calls = r.finished.length := by simp [calls, pending, hdone]
    rw [hterm, hcalls] at hiff
    simpa using hiff

/-- A response in two chunks, the client of which goes away behind the first of them. -/
theorem finished_once_chunks :
    let events := [.write (.write [1]), .sendChunk, .written 0 .success, .clear,
      .write (.write [2]), .sendFinalChunk, .connection .close, .written 0 .ioError]
    let start := start {} { task := .answering }
    let step := step ({} : HTTPServer Unit) fun _ _ => []
    ∃ r, run step start events = some r ∧ r.finished = [.ioError] ∧
      (r.finished.length = 1 ↔
        ∀ u, SendsAt ({} : HTTPServer Unit) (fun _ _ => []) start events u →
          u.served.conn.isOpen = true) := by
  intro events start step
  have hrun : (run step start events).map (fun r => (r.finished, r.terminated, r.writes)) =
      some ([.ioError], true, []) := by
    decide +kernel
  obtain ⟨r, hr, heq⟩ := Option.map_eq_some_iff.1 hrun
  simp only [Prod.mk.injEq] at heq
  exact ⟨r, hr, heq.1, (finished_once _ _ events r hr).2 heq.2.1 heq.2.2⟩

/-- The client goes away before the answer is sent on a connection that is kept alive: the
connection is finished twice, and is removed from the pool while it is read. -/
theorem finished_once_fails :
    let step := step ({} : HTTPServer Unit) fun _ _ => []
    let start := start {} { conn := { lifecycle := .keepAlive }, task := .answering }
    (run step start [.connection .close, .send]).map (fun r => (r.finished, r.served.task)) =
        some ([.ioError], .reading (newReader defaultContentMax)) ∧
      (run step start [.connection .close, .send, .written 0 .ioError]).map
        (fun r => (r.finished, r.served.task)) = some ([.ioError, .ioError], .finished) := by
  decide +kernel

end HTTPResponseWriter

end PionCore.Net
