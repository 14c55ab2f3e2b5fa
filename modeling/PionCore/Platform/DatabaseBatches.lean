/-
# Batches of the database inserter

`DatabaseInserter::insertEvents`: a batch of events is stored in one transaction.  If a statement
throws, the worker drops the batch; if the connection was lost, it connects again and tries the
batch a second time.  Nothing rolls a transaction back, and the statement that has thrown is not
reset.

What a statement does by itself is an input of the model: it works, the database is busy, or an
error is thrown, with the connection lost or not.
-/
import PionCore.Lib.Transactions
import Mathlib.Data.List.Induction

namespace PionCore.Platform

open PionCore.Lib

/-- How a statement fails by itself. -/
inductive StatementFailure where
  /-- `DatabaseBusyException` -/
  | busy
  /-- another exception -/
  | error
  /-- another exception, and the database is not open behind it -/
  | lost
deriving DecidableEq

/-- The exceptions that the worker tells apart. -/
inductive InsertException where
  | busy
  | other
deriving DecidableEq

def StatementFailure.exception : StatementFailure → InsertException
  | .busy => .busy
  | .error | .lost => .other

/-- The failures of one call of `insertEvents`, by the statements in their order. -/
structure Attempt where
  begin : Option StatementFailure := none
  /-- of `bindEvent`, by the event -/
  bind : ℕ → Option StatementFailure := fun _ => none
  /-- of the insert query, by the event -/
  insert : ℕ → Option StatementFailure := fun _ => none
  commit : Option StatementFailure := none

/-- The events of a batch, and what happens to its statements. -/
structure Batch (ε : Type*) where
  events : List ε
  first : Attempt := {}
  /-- `checkConnection` is able to connect again -/
  reconnects : Bool := true
  second : Attempt := {}

/-- The connection of the worker: `wipe` is `m_wipe`, and `insertPending` says that the insert
query was run and has not been reset. -/
structure Connection (ε : Type*) where
  isOpen : Bool := true
  table : Table ε := {}
  insertPending : Bool := false
  wipe : Bool := false

namespace Connection

variable {ε : Type*}

/-- `connect`, with new statements. -/
def connect (c : Connection ε) : Connection ε :=
  { c with
    isOpen := true, insertPending := false
    table := if c.wipe then {} else c.table.closes }

/-- A statement fails by itself. -/
def fails (c : Connection ε) : StatementFailure → Connection ε
  | .lost => { c with isOpen := false, table := c.table.closes }
  | .busy | .error => c

/-- `m_begin_transaction_ptr`. -/
def begins (c : Connection ε) : Option StatementFailure → Connection ε × Option InsertException
  | some f => (c.fails f, some f.exception)
  | none =>
      match c.table.begins with
      | some table => ({ c with table := table }, none)
      | none => (c, some .other)

/-- One turn of the loop.  A query that was not reset cannot be bound. -/
def inserts (c : Connection ε) (e : ε) (bind insert : Option StatementFailure) :
    Connection ε × Option InsertException :=
  match bind with
  | some f => (c.fails f, some f.exception)
  | none =>
      if c.insertPending then (c, some .other)
      else
        match insert with
        | some f => ({ c with insertPending := true }.fails f, some f.exception)
        | none => ({ c with table := c.table.inserts e }, none)

/-- `m_commit_transaction_ptr`. -/
def commits (c : Connection ε) : Option StatementFailure → Connection ε × Option InsertException
  | some f => (c.fails f, some f.exception)
  | none =>
      match c.table.commits with
      | some table => ({ c with table := table }, none)
      | none => (c, some .other)

/-- The loop of `insertEvents` from the event `n` on, and the commit. -/
def insertsFrom (c : Connection ε) (a : Attempt) (n : ℕ) :
    List ε → Connection ε × Option InsertException
  | [] => c.commits a.commit
  | e :: es =>
      match c.inserts e (a.bind n) (a.insert n) with
      | (c, some x) => (c, some x)
      | (c, none) => c.insertsFrom a (n + 1) es

/-- `insertEvents`. -/
def insertEvents (c : Connection ε) (a : Attempt) (es : List ε) :
    Connection ε × Option InsertException :=
  match c.begins a.begin with
  | (c, some x) => (c, some x)
  | (c, none) => c.insertsFrom a 0 es

/-- The connection behind `checkConnection`, without which no batch is taken from the queue. -/
def ready (c : Connection ε) : Connection ε := if c.isOpen then c else c.connect

/-- The worker stores a batch, or drops it. -/
def store (c : Connection ε) (b : Batch ε) : Connection ε :=
  match c.ready.insertEvents b.first b.events with
  | (c, none) => c
  | (c, some .busy) => c
  | (c, some .other) =>
      if c.isOpen then c
      else if b.reconnects then (c.connect.insertEvents b.second b.events).1
      else c

end Connection

/-! ### Which failures leave nothing behind -/

/-- The first failure behind `BEGIN`, of the `k` events from `n` on and the commit. -/
def Attempt.failure (a : Attempt) : ℕ → ℕ → Option StatementFailure
  | _, 0 => a.commit
  | n, k + 1 => (a.bind n).or ((a.insert n).or (a.failure (n + 1) k))

/-- The failure of the first statement that fails by itself. -/
def Attempt.firstFailure (a : Attempt) (k : ℕ) : Option StatementFailure :=
  a.begin.or (a.failure 0 k)

/-- If the attempt fails, then at `BEGIN`, or it loses the connection. -/
def Attempt.Recoverable (a : Attempt) (k : ℕ) : Prop :=
  a.begin.isSome ∨ a.firstFailure k = none ∨ a.firstFailure k = some .lost

namespace Batch

variable {ε : Type*}

/-- No statement of the batch fails by itself. -/
def Clean (b : Batch ε) : Prop := b.first.firstFailure b.events.length = none

/-- Every attempt for the batch that fails does so at `BEGIN`, or loses the connection, and a new
connection does not wipe the table. -/
def Recoverable (b : Batch ε) (wipe : Bool) : Prop :=
  b.first.Recoverable b.events.length ∧
    (b.first.firstFailure b.events.length = some .lost → wipe = false ∧
      (b.reconnects = true → b.second.Recoverable b.events.length))

end Batch

namespace Connection

variable {ε : Type*} {c : Connection ε} {a : Attempt} {n k : ℕ} {es : List ε} {b : Batch ε}

/-- No transaction and no statement is left behind. -/
def Idle (c : Connection ε) : Prop := c.table.opened = none ∧ c.insertPending = false

/-- What a failed attempt leaves of the connection `c`. -/
structure FailsAs (c c' : Connection ε) (f : StatementFailure) : Prop where
  stored : c'.table.stored = c.table.stored
  wipe : c'.wipe = c.wipe
  isOpen : c'.isOpen = (c.isOpen && f ≠ .lost)

lemma failsAs_fails (c : Connection ε) (f : StatementFailure) : c.FailsAs (c.fails f) f := by
  cases f with
  | lost => exact ⟨rfl, rfl, by simp [fails]⟩
  | busy | error => exact ⟨rfl, rfl, by simp [fails]⟩

/-- The loop stores all the events and commits them, up to the first failure. -/
lemma insertsFrom_of_none {r : List ε} (hopened : c.table.opened = some r)
    (hpending : c.insertPending = false) (h : a.failure n es.length = none) :
    c.insertsFrom a n es = ({ c with table := ⟨c.table.stored ++ (r ++ es), none⟩ }, none) := by
  induction es generalizing c n r with
  | nil =>
    have hcommit : a.commit = none := h
    simp [insertsFrom, commits, hcommit, Table.commits, hopened]
  | cons e es ih =>
    rw [List.length_cons, Attempt.failure, Option.or_eq_none_iff, Option.or_eq_none_iff] at h
    obtain ⟨hbind, hinsert, hrest⟩ := h
    have hturn : c.inserts e (a.bind n) (a.insert n) =
        ({ c with table := ⟨c.table.stored, some (r ++ [e])⟩ }, none) := by
      simp [inserts, hbind, hinsert, hpending, Table.inserts_of_some hopened]
    rw [insertsFrom, hturn]
    simp only
    rw [ih (c := { c with table := ⟨c.table.stored, some (r ++ [e])⟩ }) (r := r ++ [e]) rfl hpending
      hrest]
    simp

lemma insertsFrom_of_some {r : List ε} (hopened : c.table.opened = some r)
    (hpending : c.insertPending = false) {f : StatementFailure}
    (h : a.failure n es.length = some f) :
    ∃ c', c.insertsFrom a n es = (c', some f.exception) ∧ c.FailsAs c' f := by
  induction es generalizing c n r with
  | nil =>
    have hcommit : a.commit = some f := h
    exact ⟨c.fails f, by simp [insertsFrom, commits, hcommit], failsAs_fails c f⟩
  | cons e es ih =>
    rw [List.length_cons, Attempt.failure] at h
    cases hbind : a.bind n with
    | some g =>
      obtain rfl : g = f := by simpa [hbind] using h
      exact ⟨c.fails g, by simp [insertsFrom, inserts, hbind], failsAs_fails c g⟩
    | none =>
      cases hinsert : a.insert n with
      | some g =>
        obtain rfl : g = f := by simpa [hbind, hinsert] using h
        have hfails := failsAs_fails { c with insertPending := true } g
        exact ⟨_, by simp [insertsFrom, inserts, hbind, hinsert, hpending],
          hfails.stored, hfails.wipe, hfails.isOpen⟩
      | none =>
        have hrest : a.failure (n + 1) es.length = some f := by simpa [hbind, hinsert] using h
        have hturn : c.inserts e (a.bind n) (a.insert n) =
            ({ c with table := ⟨c.table.stored, some (r ++ [e])⟩ }, none) := by
          simp [inserts, hbind, hinsert, hpending, Table.inserts_of_some hopened]
        obtain ⟨c', hc', hfails⟩ :=
          ih (c := { c with table := ⟨c.table.stored, some (r ++ [e])⟩ }) rfl hpending hrest
        exact ⟨c', by rw [insertsFrom, hturn]; exact hc', hfails.stored, hfails.wipe,
          hfails.isOpen⟩

/-- The transaction begins where no other one is open. -/
lemma Idle.begins (h : c.Idle) (hbegin : a.begin = none) :
    c.begins a.begin = ({ c with table := ⟨c.table.stored, some []⟩ }, none) := by
  simp [Connection.begins, hbegin, Table.begins_of_none h.1]

lemma Idle.insertEvents_of_none (h : c.Idle) (hnone : a.firstFailure es.length = none) :
    c.insertEvents a es = ({ c with table := ⟨c.table.stored ++ es, none⟩ }, none) := by
  obtain ⟨hbegin, hfailure⟩ := Option.or_eq_none_iff.1 hnone
  rw [insertEvents, h.begins hbegin]
  simp only
  rw [insertsFrom_of_none (c := { c with table := ⟨c.table.stored, some []⟩ }) (r := []) rfl h.2
    hfailure, List.nil_append]

/-- An attempt that fails stores nothing, and leaves no transaction if it fails at `BEGIN`. -/
lemma Idle.insertEvents_of_some (h : c.Idle) {f : StatementFailure}
    (hsome : a.firstFailure es.length = some f) :
    ∃ c', c.insertEvents a es = (c', some f.exception) ∧ c.FailsAs c' f ∧
      (a.begin.isSome → f ≠ .lost → c' = c) := by
  cases hbegin : a.begin with
  | some g =>
    obtain rfl : g = f := by simpa [Attempt.firstFailure, hbegin] using hsome
    refine ⟨c.fails g, by simp [insertEvents, Connection.begins, hbegin], failsAs_fails c g,
      fun _ hne => ?_⟩
    cases g with
    | lost => exact absurd rfl hne
    | busy | error => rfl
  | none =>
    have hfailure : a.failure 0 es.length = some f := by
      simpa [Attempt.firstFailure, hbegin] using hsome
    obtain ⟨c', hc', hfails⟩ := insertsFrom_of_some
      (c := { c with table := ⟨c.table.stored, some []⟩ }) (r := []) rfl h.2 hfailure
    refine ⟨c', ?_, ⟨hfails.stored, hfails.wipe, hfails.isOpen⟩, by simp⟩
    rw [insertEvents, h.begins hbegin]
    exact hc'

/-- What the batches before leave behind: an open connection is idle, and one that will be opened
again does not lose what is stored. -/
def Sound (c : Connection ε) : Prop :=
  (c.isOpen = true → c.Idle) ∧ (c.isOpen = false → c.wipe = false)

lemma Sound.connect (hwipe : c.wipe = false) :
    c.connect.Idle ∧ c.connect.isOpen = true ∧ c.connect.table.stored = c.table.stored ∧
      c.connect.wipe = c.wipe := by
  simp [Connection.connect, Idle, hwipe]

lemma Sound.ready (h : c.Sound) :
    c.ready.Idle ∧ c.ready.isOpen = true ∧ c.ready.table.stored = c.table.stored ∧
      c.ready.wipe = c.wipe := by
  cases hopen : c.isOpen with
  | true => simp [Connection.ready, hopen, h.1 hopen]
  | false =>
    rw [Connection.ready, hopen]
    exact Sound.connect (h.2 hopen)

/-- What an attempt that fails leaves of an idle connection, if it can be recovered from. -/
lemma Idle.failed_sound (h : c.Idle) {f : StatementFailure} {c' : Connection ε}
    (hrec : a.begin.isSome ∨ f = .lost) (hfails : c.FailsAs c' f)
    (hbegin : a.begin.isSome → f ≠ .lost → c' = c) (hopen : c.isOpen = true)
    (hwipe : f = .lost → c.wipe = false) : c'.Sound := by
  by_cases hlost : f = .lost
  · have hclosed : c'.isOpen = false := by rw [hfails.isOpen, hlost]; simp
    exact ⟨fun ho => absurd ho (by simp [hclosed]), fun _ => hfails.wipe.trans (hwipe hlost)⟩
  · obtain rfl := hbegin (hrec.resolve_right hlost) hlost
    exact ⟨fun _ => h, fun hc => absurd hopen (by simp [hc])⟩

/-- The batch is stored if no statement of it fails by itself, and it is stored once or not. -/
def Stores (c : Connection ε) (b : Batch ε) : Prop :=
  (b.Clean → (c.store b).table.stored = c.table.stored ++ b.events) ∧
    ((c.store b).table.stored = c.table.stored ∨
      (c.store b).table.stored = c.table.stored ++ b.events)

/-- What an attempt does that can be recovered from: all the events are stored, or none of them. -/
lemma Idle.attempt (h : c.Idle) (hopen : c.isOpen = true) (hrec : a.Recoverable es.length)
    (hwipe : a.firstFailure es.length = some .lost → c.wipe = false) :
    (c.insertEvents a es).1.Sound ∧ (c.insertEvents a es).1.wipe = c.wipe ∧
      ((c.insertEvents a es).1.table.stored = c.table.stored ∨
        (c.insertEvents a es).1.table.stored = c.table.stored ++ es) := by
  cases hfirst : a.firstFailure es.length with
  | none =>
    rw [h.insertEvents_of_none hfirst]
    refine ⟨⟨fun _ => ⟨rfl, h.2⟩, fun hclosed => ?_⟩, rfl, Or.inr rfl⟩
    exact absurd hopen (by simp [show c.isOpen = false from hclosed])
  | some f =>
    obtain ⟨c', hc', hfails, hbegin⟩ := h.insertEvents_of_some hfirst
    rw [hc']
    have hwhere : a.begin.isSome ∨ f = .lost := by
      rcases hrec with hbegin | hnone | hlost
      · exact Or.inl hbegin
      · rw [hfirst] at hnone
        exact absurd hnone (by simp)
      · rw [hfirst] at hlost
        exact Or.inr (Option.some.inj hlost)
    refine ⟨h.failed_sound hwhere hfails hbegin hopen ?_, hfails.wipe, Or.inl hfails.stored⟩
    rintro rfl
    exact hwipe hfirst

lemma Sound.store (h : c.Sound) (hb : b.Recoverable c.wipe) :
    (c.store b).Sound ∧ (c.store b).wipe = c.wipe ∧ c.Stores b := by
  obtain ⟨hidle, hopen, hstored, hwipe⟩ := h.ready
  obtain ⟨hfirst, hsecond⟩ := hb
  have hready := hidle.attempt hopen hfirst fun hlost => hwipe.trans (hsecond hlost).1
  rw [hstored, hwipe] at hready
  cases hfail : b.first.firstFailure b.events.length with
  | none =>
    have hstore : c.store b = (c.ready.insertEvents b.first b.events).1 := by
      rw [Connection.store, hidle.insertEvents_of_none hfail]
    have hall : (c.store b).table.stored = c.table.stored ++ b.events := by
      rw [hstore, hidle.insertEvents_of_none hfail, hstored]
    rw [← hstore] at hready
    exact ⟨hready.1, hready.2.1, fun _ => hall, Or.inr hall⟩
  | some f =>
    have hnot : ¬ b.Clean := by simp [Batch.Clean, hfail]
    obtain ⟨c', hc', hfails, -⟩ := hidle.insertEvents_of_some hfail
    rw [hc'] at hready
    have hopen' := hfails.isOpen
    rw [hopen] at hopen'
    -- the batch is dropped, unless the connection was lost
    by_cases hlost : f = .lost
    · obtain ⟨hoff, hagain⟩ := hsecond (hlost ▸ hfail)
      have hc'off : c'.wipe = false := hready.2.1.trans hoff
      have hstore : c.store b =
          if b.reconnects then (c'.connect.insertEvents b.second b.events).1 else c' := by
        rw [Connection.store, hc', hlost]
        simp [StatementFailure.exception, hopen', hlost]
      by_cases hrec : b.reconnects = true
      · obtain ⟨hidle', hopen'', hstored', hwipe'⟩ := Sound.connect hc'off
        have htwice := hidle'.attempt hopen'' (hagain hrec) fun _ => hwipe'.trans hc'off
        rw [if_pos hrec] at hstore
        rw [← hstore, hstored', hwipe', hready.2.1, hfails.stored, hstored] at htwice
        exact ⟨htwice.1, htwice.2.1, fun hclean => absurd hclean hnot, htwice.2.2⟩
      · rw [if_neg hrec] at hstore
        rw [← hstore] at hready
        exact ⟨hready.1, hready.2.1, fun hclean => absurd hclean hnot, hready.2.2⟩
    · have hstore : c.store b = c' := by
        rw [Connection.store, hc']
        cases f with
        | lost => exact absurd rfl hlost
        | busy => rfl
        | error => simp [StatementFailure.exception, hopen']
      rw [← hstore] at hready
      exact ⟨hready.1, hready.2.1, fun hclean => absurd hclean hnot, hready.2.2⟩

end Connection

section Batches

variable {ε : Type*}

/-- The connection behind some batches. -/
def storeAll (wipe : Bool) (bs : List (Batch ε)) : Connection ε :=
  bs.foldl Connection.store { wipe := wipe }

lemma storeAll_sound {wipe : Bool} {bs : List (Batch ε)} (h : ∀ b ∈ bs, b.Recoverable wipe) :
    (storeAll wipe bs).Sound ∧ (storeAll wipe bs).wipe = wipe := by
  induction bs using List.reverseRecOn with
  | nil => exact ⟨⟨fun _ => ⟨rfl, rfl⟩, fun hclosed => absurd hclosed (by simp [storeAll])⟩, rfl⟩
  | append_singleton bs b ih =>
    obtain ⟨hsound, hwipe⟩ := ih fun b hb => h b (List.mem_append_left _ hb)
    have hb := h b (by simp)
    rw [← hwipe] at hb
    rw [storeAll, List.foldl_append, List.foldl_cons, List.foldl_nil]
    exact ⟨(hsound.store hb).1, (hsound.store hb).2.1.trans hwipe⟩

/-- Where every failure is one at `BEGIN` or one that loses the connection, a batch without a
failure is stored, whatever has failed before it, and no batch is stored twice. -/
theorem batches_stored {wipe : Bool} {bs : List (Batch ε)}
    (h : ∀ b ∈ bs, b.Recoverable wipe) {before after : List (Batch ε)} {b : Batch ε}
    (hbs : bs = before ++ b :: after) : (storeAll wipe before).Stores b := by
  have hbefore : ∀ b ∈ before, b.Recoverable wipe :=
    fun b hb => h b (hbs ▸ List.mem_append_left _ hb)
  obtain ⟨hsound, hwipe⟩ := storeAll_sound hbefore
  have hb := h b (by simp [hbs])
  rw [← hwipe] at hb
  exact (hsound.store hb).2.2

/-- A batch behind one that finds the database busy, and behind one that loses the connection in
its second event. -/
theorem batches_stored_third : (storeAll false [
      { events := [1], first := { begin := some .busy } },
      { events := [2, 3],
        first := { insert := fun n => if n = 1 then some .lost else none } }]).Stores
    ({ events := [4] } : Batch ℕ) := by
  refine @batches_stored _ _ _ ?_ _ [] _ rfl
  simp [Batch.Recoverable, Attempt.Recoverable, Attempt.firstFailure, Attempt.failure]

/-- An error in the second event of a batch leaves its transaction open: the batches behind it are
dropped, one after the other, though none of their statements fails by itself. -/
theorem failed_batch_poisons :
    let failed : Batch ℕ :=
      { events := [1, 2], first := { insert := fun n => if n = 1 then some .error else none } }
    let later : Batch ℕ := { events := [3] }
    later.Clean ∧ (storeAll false [failed, later, later]).table.stored = [] ∧
      ¬ (storeAll false [failed]).Stores later := by
  refine ⟨rfl, rfl, fun h => ?_⟩
  exact absurd (h.1 rfl) (by decide)

end Batches

end PionCore.Platform
