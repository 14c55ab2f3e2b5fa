/-
# The server lock

`TCPServer::finishConnection` hands a connection that is kept alive to a new reader while it holds
the mutex of the server.  If bytes are left in the read buffer they are parsed at once, and a
request that is lost in this way calls `finishConnection` again.  On an open connection this
happens if and only if a header is folded (`lock_not_reentered`): this is the one failure of the
parser that sets no error code.
-/
import PionCore.Net.HTTPServer

namespace PionCore.Net

open PionCore.Lib

namespace HTTPServer

variable {ι : Type*} (server : HTTPServer ι)

/-- The bytes that were left in the read buffer are taken up when the connection is finished. -/
def TakesUp (s : Served) : Prop := s.isListening = true ∧ s.conn.getPipelined = true

instance (s : Served) : Decidable (TakesUp s) := inferInstanceAs (Decidable (_ ∧ _))

/-- A read position is only saved in front of bytes. -/
def Saved (s : Served) : Prop :=
  s.task = .answering → s.conn.getPipelined = true → s.conn.readPosition ≠ []

/-! ### One step -/

/-- Only a request that was lost under the lock ends in a deadlock. -/
lemma task_proceed {locked : Bool} {s : Served} {x : TCPConnection × ReadResult} :
    (server.proceed locked s x).task = .deadlocked ↔
      locked = true ∧ ∃ request ec, x.2 = .finishedReading request ec ∧
        server.handleRequest x.1.isOpen request ec = .lost := by
  rw [proceed]
  cases hx : x.2 with
  | readBytes reader => simp
  | finishedReading request ec =>
    cases ha : server.handleRequest x.1.isOpen request ec <;> cases locked <;> simp [ha]

/-- A lost request is one that was refused without an error code, on an open connection. -/
lemma handleRequest_lost_iff {isOpen : Bool} {request : HTTPMessage} {ec : ErrorCode}
    (hopen : isOpen = true) (hvalid : request.isValid = false) :
    server.handleRequest isOpen request ec = .lost ↔ ec.isParserError = false := by
  rw [handleRequest]
  rw [if_pos (Or.inr hvalid)]
  cases ec.isParserError <;> simp [hopen]

/-- The outcomes with which a request is lost on an open connection. -/
lemma lost_conclusion {conn : TCPConnection} {x : Scanned Byte Session Tribool}
    (hopen : conn.isOpen = true)
    (hyes : x.result = some .yes → x.state.ec = .success ∧ x.state.msg.isValid = true) :
    (∃ request ec, (HTTPReader.conclusion conn x).2 = .finishedReading request ec ∧
      server.handleRequest (HTTPReader.conclusion conn x).1.isOpen request ec = .lost) ↔
      x.result = some .no ∧ x.state.ec.isParserError = false := by
  rw [HTTPReader.conclusion]
  cases hx : x.result with
  | none => simp
  | some rc =>
    cases rc with
    | indeterminate => simp
    | yes =>
      obtain ⟨hec, hvalid⟩ := hyes hx
      have hne := (server.handleRequest_valid (HTTPReader.keep conn x.state.msg x.rest).isOpen
        hvalid).1
      simpa [hec] using hne
    | no =>
      have hiff : server.handleRequest conn.isOpen { x.state.msg with isValid := false }
          x.state.ec = .lost ↔ x.state.ec.isParserError = false :=
        server.handleRequest_lost_iff hopen rfl
      simpa [TCPConnection.setLifecycle] using hiff

/-- On an open connection, exactly a folded header in the read buffer ends in a deadlock. -/
lemma deadlocked_finishConnection {s : Served} (hopen : TakesUp s → s.conn.isOpen = true)
    (hsaved : s.conn.getPipelined = true → s.conn.readPosition ≠ []) :
    (server.finishConnection s).task = .deadlocked ↔
      TakesUp s ∧ FoldsHeader s.conn.readPosition := by
  by_cases htakes : TakesUp s
  · obtain ⟨hlistening, hpipe⟩ := htakes
    have hkeep : s.conn.getKeepAlive = true := by
      simp only [TCPConnection.getPipelined, TCPConnection.getKeepAlive, decide_eq_true_eq]
        at hpipe ⊢
      simp [hpipe]
    have hne := hsaved hpipe
    have hreceive : HTTPReader.receive s.conn (newReader server.maxContentLength) =
        HTTPReader.conclusion (s.conn.setLifecycle .close)
          ((newReader server.maxContentLength).read s.conn.readPosition) := by
      rw [HTTPReader.receive_eq, if_pos hpipe]
      rfl
    have hread := Session.read_newReader server.maxContentLength hne
    rw [finishConnection, if_pos ⟨hlistening, hkeep⟩, handleConnection, task_proceed, hreceive,
      lost_conclusion server
        (show (s.conn.setLifecycle .close).isOpen = true from hopen ⟨hlistening, hpipe⟩)]
    · rcases hread with ⟨hfold, hno, hsuccess⟩ | ⟨hfold, hexplains⟩
      · simp [TakesUp, hlistening, hpipe, hfold, hno, hsuccess, ErrorCode.isParserError]
      · constructor
        · rintro ⟨-, hno, herror⟩
          rcases hexplains .no hno with ⟨hyes, -⟩ | ⟨-, ev, hev⟩
          · cases hyes
          · rw [hev] at herror
            cases herror
        · rintro ⟨-, hfold'⟩
          exact absurd hfold' hfold
    · intro hyes
      rcases hread with ⟨-, hno, -⟩ | ⟨-, hexplains⟩
      · rw [hyes] at hno
        cases hno
      · rcases hexplains .yes hyes with ⟨-, hsuccess⟩ | ⟨hno, -⟩
        · exact ⟨hsuccess, Session.isValid_of_read hyes⟩
        · cases hno
  · have hno : ¬ (server.finishConnection s).task = .deadlocked := by
      rw [finishConnection]
      split_ifs with hkeep
      · have hpipe : ¬ s.conn.getPipelined = true := fun h => htakes ⟨hkeep.1, h⟩
        rw [handleConnection, HTTPReader.receive, if_neg hpipe, task_proceed]
        simp
      · simp
    exact ⟨fun h => absurd h hno, fun h => absurd h.1 htakes⟩

/-! ### Runs -/

variable {s s' : Served} {e : ConnectionEvent}

/-- What is saved in a connection. -/
lemma saved_conclusion (conn : TCPConnection) (x : Scanned Byte Session Tribool) :
    (HTTPReader.conclusion conn x).1.getPipelined = true →
      (∃ reader, (HTTPReader.conclusion conn x).2 = .readBytes reader) ∨
        (HTTPReader.conclusion conn x).1.readPosition ≠ [] := by
  rw [HTTPReader.conclusion]
  cases hx : x.result with
  | none => exact fun _ => Or.inl ⟨_, rfl⟩
  | some rc =>
    cases rc with
    | indeterminate => exact fun _ => Or.inl ⟨_, rfl⟩
    | no => exact fun h => by simp [TCPConnection.setLifecycle, TCPConnection.getPipelined] at h
    | yes =>
      simp only [HTTPReader.keep]
      split_ifs with hkeep hnil
      · exact fun h => by simp [TCPConnection.setLifecycle, TCPConnection.getPipelined] at h
      · exact fun _ => Or.inr hnil
      · exact fun h => by simp [TCPConnection.setLifecycle, TCPConnection.getPipelined] at h

lemma saved_proceed {locked : Bool} {x : TCPConnection × ReadResult}
    (hx : x.1.getPipelined = true → (∃ reader, x.2 = .readBytes reader) ∨ x.1.readPosition ≠ []) :
    Saved (server.proceed locked s x) := by
  have hclosed : (x.1.setLifecycle .close).getPipelined = false := rfl
  rw [proceed]
  cases hr : x.2 with
  | readBytes reader => simp [Saved]
  | finishedReading request ec =>
    have hposition : x.1.getPipelined = true → x.1.readPosition ≠ [] := fun h =>
      (hx h).resolve_left (by simp [hr])
    cases ha : server.handleRequest x.1.isOpen request ec <;> simp only [ha, Saved, hclosed] <;>
      first | exact fun _ h => by cases h | exact fun _ => hposition

/-- Nothing is saved when a read has failed. -/
lemma not_pipelined_handleReadError (conn : TCPConnection) (reader : Session) (ec : ErrorCode) :
    ¬ (HTTPReader.handleReadError conn reader ec).1.getPipelined = true := by
  rw [HTTPReader.handleReadError]
  dsimp only
  split_ifs <;> simp [TCPConnection.setLifecycle, TCPConnection.getPipelined]

lemma saved_step (hs : Saved s) (h : server.step s e = some s') : Saved s' := by
  rcases server.step_cases h with ⟨w, reader, -, -, -, rfl⟩ | ⟨reader, -, -, rfl⟩ | ⟨-, -, rfl⟩ |
    ⟨-, rfl⟩ | ⟨b, -, rfl⟩
  · exact server.saved_proceed (saved_conclusion _ _)
  · exact server.saved_proceed fun hpipe =>
      absurd hpipe (not_pipelined_handleReadError s.conn reader .ioError)
  · rw [finishConnection]
    split_ifs
    · rw [handleConnection, HTTPReader.receive_eq]
      split_ifs
      · exact server.saved_proceed (saved_conclusion _ _)
      · exact server.saved_proceed fun _ => Or.inl ⟨_, rfl⟩
    · exact fun h => by cases h
  · exact hs
  · exact hs

/-- A deadlock comes from a connection that was finished, and stays. -/
lemma deadlocked_step (h : server.step s e = some s') :
    s'.task = .deadlocked ↔ s.task = .deadlocked ∨
      e = .finish ∧ s.task = .answering ∧ (server.finishConnection s).task = .deadlocked := by
  rcases server.step_cases h with ⟨w, reader, rfl, ht, -, rfl⟩ | ⟨reader, rfl, ht, rfl⟩ |
    ⟨rfl, ht, rfl⟩ | ⟨rfl, rfl⟩ | ⟨b, rfl, rfl⟩
  · simp [task_proceed, ht]
  · simp [task_proceed, ht]
  · simp [ht]
  · simp
  · simp

/-- The states in which a connection is finished in a run. -/
abbrev FinishesAt (events : List ConnectionEvent) (u : Served) : Prop :=
  HappensIn server.step server.accepted events .finish u

lemma saved_accepted : Saved server.accepted :=
  server.saved_proceed fun _ => Or.inl ⟨_, rfl⟩

lemma saved_run {events : List ConnectionEvent}
    (h : run server.step server.accepted events = some s) : Saved s :=
  run_invariant (fun _ _ _ hs he => server.saved_step hs he) server.saved_accepted h

/-- If the connection is open whenever bytes are taken up that were left in its read buffer, a run
comes to a deadlock if and only if the header in such bytes is folded. -/
theorem lock_not_reentered (events : List ConnectionEvent)
    (h : run server.step server.accepted events = some s)
    (hopen : ∀ u, server.FinishesAt events u → TakesUp u → u.conn.isOpen = true) :
    s.task ≠ .deadlocked ↔
      ∀ u, server.FinishesAt events u → TakesUp u → ¬ FoldsHeader u.conn.readPosition := by
  refine run_induction (P := fun events s =>
    (∀ u, server.FinishesAt events u → TakesUp u → u.conn.isOpen = true) →
      (s.task ≠ .deadlocked ↔
        ∀ u, server.FinishesAt events u → TakesUp u → ¬ FoldsHeader u.conn.readPosition))
    ?_ ?_ h hopen
  · intro _
    exact ⟨fun _ u hu => absurd hu not_happensIn_nil,
      fun _ => by simp [accepted, handleConnection, task_proceed]⟩
  · intro es e t t' hrun ih hstep hopen
    have hbefore := ih fun u hu => hopen u (happensIn_snoc.2 (Or.inl hu))
    have hfinish : e = .finish → t.task = .answering →
        ((server.finishConnection t).task = .deadlocked ↔
          TakesUp t ∧ FoldsHeader t.conn.readPosition) := by
      rintro rfl ht
      exact server.deadlocked_finishConnection
        (hopen t (happensIn_snoc.2 (Or.inr ⟨rfl, hrun⟩))) (server.saved_run hrun ht)
    constructor
    · intro hne u hu htakes hfold
      rcases happensIn_snoc.1 hu with hu' | ⟨rfl, hu'⟩
      · have hfree : t.task ≠ .deadlocked := fun hdead =>
          hne ((server.deadlocked_step hstep).2 (Or.inl hdead))
        exact hbefore.1 hfree u hu' htakes hfold
      · obtain rfl := Option.some.inj (hrun.symm.trans hu')
        have ht : t.task = .answering := by
          rcases server.step_cases hstep with ⟨w, reader, he, -⟩ | ⟨reader, he, -⟩ | ⟨-, ht, -⟩ |
            ⟨he, -⟩ | ⟨b, he, -⟩
          · cases he
          · cases he
          · exact ht
          · cases he
          · cases he
        exact hne ((server.deadlocked_step hstep).2
          (Or.inr ⟨rfl, ht, (hfinish rfl ht).2 ⟨htakes, hfold⟩⟩))
    · intro hall hdead
      rcases (server.deadlocked_step hstep).1 hdead with hdead | ⟨rfl, ht, hdead⟩
      · refine hbefore.2 (fun u hu => hall u ?_) hdead
        exact happensIn_snoc.2 (Or.inl hu)
      · obtain ⟨htakes, hfold⟩ := (hfinish rfl ht).1 hdead
        exact hall t (happensIn_snoc.2 (Or.inr ⟨rfl, hrun⟩)) htakes hfold

/-- A server that answers whatever it is asked. -/
def plainServer : HTTPServer Unit where
  resources := ({} : Std.TreeMap Bytes Unit).insertIfNew [] ()

/-- Two requests in one read, and their answers. -/
theorem lock_not_reentered_two :
    let events := [.read (ascii "GET /a HTTP/1.1\r\n\r\nGET /b HTTP/1.1\r\n\r\n"), .finish, .finish]
    let s := ((run plainServer.step plainServer.accepted events).getD {})
    s.task ≠ .deadlocked ↔ ∀ u, plainServer.FinishesAt events u → TakesUp u →
      ¬ FoldsHeader u.conn.readPosition := by
  intro events s
  refine plainServer.lock_not_reentered events ?_ ?_
  · have hsome : (run plainServer.step plainServer.accepted events).isSome = true := by
      decide +kernel
    obtain ⟨t, ht⟩ := Option.isSome_iff_exists.1 hsome
    simp only [s, ht, Option.getD_some]
  · rintro u ⟨before, after, heq, hrun⟩ -
    refine plainServer.isOpen_run (fun hclose => ?_) hrun rfl
    have hmem : ConnectionEvent.close ∈ events := by
      rw [heq]
      exact List.mem_append_left _ hclose
    simp [events] at hmem

/-- The second of two requests has a header that begins with a blank: with its first answer the
mutex is locked twice, while the connection is open. -/
theorem lock_not_reentered_fails :
    (run plainServer.step plainServer.accepted
      [.read (ascii "GET /a HTTP/1.1\r\n\r\nGET /b HTTP/1.1\r\n x: y\r\n\r\n"), .finish]).map
        (fun s => (s.task, s.conn.isOpen)) = some (.deadlocked, true) := by
  decide +kernel

end HTTPServer

end PionCore.Net
