/-
# The stream buffer of a connection

`TCPStreamBuffer` is a `std::streambuf` over a TCP connection.  It keeps a get area in the read
buffer of the connection, whose first bytes are left for characters that are put back, and a put
area whose last byte is left for the character that does not fit.  The functions that it inherits
(`sputc`, `sgetc`, `sbumpc`, `sputbackc`, `sungetc`) are those of the standard library.

Abstractly it is a pair of byte streams: what is put is written in order, and a cursor moves over
the bytes that are received, forwards when characters are taken and backwards when they are put
back.
-/
import PionCore.Lib.Ascii
import PionCore.Lib.Memory
import PionCore.Net.HTTPReader

namespace PionCore.Net

open PionCore.Lib

/-! ### Characters, connections and buffers -/

/-- An `int_type`: the content of a cell, or `eof()`. -/
inductive IntType where
  | eof
  | chr (cell : Option Byte)
deriving DecidableEq

/-- `traits_type::not_eof`. -/
def IntType.notEof : IntType → IntType
  | .eof => .chr (some 0)
  | .chr cell => .chr cell

/-- What the asynchronous operations on a connection complete with: the read of each number with
an error or with bytes, and the write of each number, for the number of bytes that are passed to
it, with an error flag and the number of bytes that were transferred. -/
structure Completions where
  readSome : ℕ → Option Bytes
  write : ℕ → ℕ → Bool × ℕ

/-- `PUT_BACK_MAX`. -/
def putBackMax : ℕ := 10

/-- `WRITE_BUFFER_SIZE`. -/
def writeBufferSize : ℕ := 8192

/-- The connection never reports an error: a read brings at least one byte and not more than there
is room for, and a write transfers everything. -/
structure Completions.NoErrors (conn : Completions) : Prop where
  readSome : ∀ i, ∃ piece, conn.readSome i = some piece ∧ piece ≠ [] ∧
    piece.length ≤ readBufferSize - putBackMax
  write : ∀ i n, conn.write i n = (false, n)

/-- The get area: the read buffer of the connection with the three pointers into it, and how many
reads have been completed.  `wild` records a copy that missed the buffer. -/
structure GetArea where
  readBuf : List (Option Byte)
  eback : ℕ
  gptr : ℕ
  egptr : ℕ
  reads : ℕ := 0
  wild : Bool := false
deriving DecidableEq

/-- The put area: the write buffer with `pptr()`, how many writes have been completed, and the
bytes they have sent; `pbase()` is the first cell of the buffer. -/
structure PutArea where
  writeBuf : List (Option Byte)
  pptr : ℕ
  writes : ℕ := 0
  sent : List (Option Byte) := []
  wild : Bool := false
deriving DecidableEq

structure TCPStreamBuffer where
  input : GetArea
  output : PutArea
deriving DecidableEq

/-- `setupBuffers`. -/
def TCPStreamBuffer.setupBuffers : TCPStreamBuffer where
  input :=
    { readBuf := List.replicate readBufferSize none
      eback := putBackMax, gptr := putBackMax, egptr := putBackMax }
  output := { writeBuf := List.replicate writeBufferSize none, pptr := 0 }

/-! ### The put area -/

namespace PutArea

/-- The end of the put area: `setp` leaves out the last byte of the buffer. -/
def epptr : ℕ := writeBufferSize - 1

/-- `memcpy` of a word into the write buffer. -/
def store (a : PutArea) (i : ℕ) (w : List Byte) : PutArea :=
  { a with
    writeBuf := Memory.write a.writeBuf i w
    wild := a.wild || ! decide (Memory.Fits a.writeBuf i w) }

/-- `async_write`, up to its completion: the error flag, and how many bytes were transferred. -/
def asyncWrite (a : PutArea) (conn : Completions) (data : List (Option Byte)) :
    PutArea × Bool × ℕ :=
  let (error, transferred) := conn.write a.writes data.length
  ({ a with writes := a.writes + 1, sent := a.sent ++ data.take transferred }, error, transferred)

/-- `flushOutput`; `none` is `eof()`. -/
def flushOutput (a : PutArea) (conn : Completions) : PutArea × Option ℕ :=
  let bytesToSend := a.pptr
  if 0 < bytesToSend then
    let (a', error, bytesSent) := a.asyncWrite conn (a.writeBuf.take bytesToSend)
    ({ a' with pptr := a'.pptr - bytesSent }, if error then none else some bytesSent)
  else (a, some 0)

/-- The character that does not fit goes to the last byte of the buffer. -/
def overflow (a : PutArea) (conn : Completions) (c : IntType) : PutArea × IntType :=
  let a := match c with
    | .eof => a
    | .chr cell => { a.store a.pptr cell.toList with pptr := a.pptr + 1 }
  let (a, sent) := a.flushOutput conn
  (a, if sent = none then .eof else c.notEof)

/-- `sputc`. -/
def sputc (a : PutArea) (conn : Completions) (c : Byte) : PutArea × IntType :=
  if a.pptr < epptr then ({ a.store a.pptr [c] with pptr := a.pptr + 1 }, .chr (some c))
  else a.overflow conn (.chr (some c))

/-- `xsputn`, which `sputn` calls: how many characters it has taken. -/
def xsputn (a : PutArea) (conn : Completions) (s : Bytes) : PutArea × ℕ :=
  let bytesAvailable := epptr - a.pptr
  if s.length ≤ bytesAvailable then
    ({ a.store a.pptr s with pptr := a.pptr + s.length }, s.length)
  else
    let a :=
      if 0 < bytesAvailable then
        { a.store a.pptr (s.take bytesAvailable) with pptr := a.pptr + bytesAvailable }
      else a
    let (a, sent) := a.flushOutput conn
    if sent = none then (a, 0)
    else
      let rest := s.drop bytesAvailable
      if writeBufferSize - 1 ≤ s.length - bytesAvailable then
        -- what is left is larger than the buffer, it is written past it
        let (a, _, transferred) := a.asyncWrite conn (rest.map some)
        (a, bytesAvailable + transferred)
      else ({ a.store 0 rest with pptr := a.pptr + (s.length - bytesAvailable) }, s.length)

/-- `sync`. -/
def sync (a : PutArea) (conn : Completions) : PutArea × ℤ :=
  let (a, sent) := a.flushOutput conn
  (a, if sent = none then -1 else 0)

end PutArea

/-! ### The get area -/

namespace GetArea

/-- The cell a pointer points to. -/
def deref (a : GetArea) (i : ℕ) : Option Byte := a.readBuf[i]?.join

def underflow (a : GetArea) (conn : Completions) : GetArea × IntType :=
  if a.gptr < a.egptr then (a, .chr (a.deref a.gptr))
  else
    -- the bytes in front of the read position can be put back
    let putBackNum :=
      if putBackMax < a.gptr - a.eback then putBackMax else a.gptr - a.eback
    let moved :=
      if 0 < putBackNum then
        Memory.move a.readBuf (putBackMax - putBackNum) (a.gptr - putBackNum) putBackNum
      else a.readBuf
    match conn.readSome a.reads with
    | none => ({ a with readBuf := moved, reads := a.reads + 1 }, .eof)
    | some piece =>
      let a' : GetArea :=
        { readBuf := Memory.write moved putBackMax piece
          eback := putBackMax - putBackNum
          gptr := putBackMax
          egptr := putBackMax + piece.length
          reads := a.reads + 1
          wild := a.wild || ! decide (Memory.Fits moved putBackMax piece) }
      (a', .chr (a'.deref a'.gptr))

/-- `sgetc`. -/
def sgetc (a : GetArea) (conn : Completions) : GetArea × IntType :=
  if a.gptr < a.egptr then (a, .chr (a.deref a.gptr)) else a.underflow conn

/-- `uflow`, as the standard library has it. -/
def uflow (a : GetArea) (conn : Completions) : GetArea × IntType :=
  let (a, c) := a.underflow conn
  if c = .eof then (a, .eof) else ({ a with gptr := a.gptr + 1 }, .chr (a.deref a.gptr))

/-- `sbumpc`. -/
def sbumpc (a : GetArea) (conn : Completions) : GetArea × IntType :=
  if a.gptr < a.egptr then ({ a with gptr := a.gptr + 1 }, .chr (a.deref a.gptr))
  else a.uflow conn

/-- The loop of `xsgetn`, for a number of rounds: the bytes that remain to be read, and those that
were copied so far. -/
def xsgetnLoop (conn : Completions) :
    ℕ → GetArea → ℕ → List (Option Byte) → Option (GetArea × ℕ × List (Option Byte))
  | 0, _, _, _ => none
  | fuel + 1, a, bytesRemaining, s =>
    if bytesRemaining = 0 then some (a, 0, s)
    else
      let bytesAvailable := a.egptr - a.gptr
      let bytesNextRead := if bytesRemaining ≤ bytesAvailable then bytesRemaining else bytesAvailable
      let s := s ++ (a.readBuf.drop a.gptr).take bytesNextRead
      let a := { a with gptr := a.gptr + bytesNextRead }
      let bytesRemaining := bytesRemaining - bytesNextRead
      if 0 < bytesRemaining then
        let (a, c) := a.underflow conn
        if c = .eof then some (a, bytesRemaining, s)
        else xsgetnLoop conn fuel a bytesRemaining s
      else xsgetnLoop conn fuel a bytesRemaining s

/-- `xsgetn`, which `sgetn` calls: how many characters it has read, and the characters.  Each
round but the first copies at least one of them. -/
def xsgetn (a : GetArea) (conn : Completions) (n : ℕ) :
    Option (GetArea × ℕ × List (Option Byte)) :=
  (xsgetnLoop conn (n + 2) a n []).map fun (a, bytesRemaining, s) => (a, n - bytesRemaining, s)

/-- `sungetc`; `pbackfail` is that of the standard library, which fails. -/
def sungetc (a : GetArea) : GetArea × IntType :=
  if a.eback < a.gptr then ({ a with gptr := a.gptr - 1 }, .chr (a.deref (a.gptr - 1)))
  else (a, .eof)

/-- `sputbackc`, which takes back only the character in front of the read position. -/
def sputbackc (a : GetArea) (c : Byte) : GetArea × IntType :=
  if a.eback < a.gptr ∧ a.deref (a.gptr - 1) = some c then
    ({ a with gptr := a.gptr - 1 }, .chr (a.deref (a.gptr - 1)))
  else (a, .eof)

end GetArea

/-! ### Operations -/

inductive StreamOperation where
  | sputc (c : Byte)
  | sputn (s : Bytes)
  | sync
  | sgetc
  | sbumpc
  | sgetn (n : ℕ)
  | sputbackc (c : Byte)
  | sungetc
deriving DecidableEq

/-- What an operation returns. -/
inductive StreamResult where
  | int (c : IntType)
  | count (n : ℕ)
  | status (z : ℤ)
  | chars (n : ℕ) (s : List (Option Byte))
deriving DecidableEq

namespace TCPStreamBuffer

def step (conn : Completions) (b : TCPStreamBuffer) :
    StreamOperation → Option (TCPStreamBuffer × StreamResult)
  | .sputc c => let (a, c) := b.output.sputc conn c; some ({ b with output := a }, .int c)
  | .sputn s => let (a, n) := b.output.xsputn conn s; some ({ b with output := a }, .count n)
  | .sync => let (a, z) := b.output.sync conn; some ({ b with output := a }, .status z)
  | .sgetc => let (a, c) := b.input.sgetc conn; some ({ b with input := a }, .int c)
  | .sbumpc => let (a, c) := b.input.sbumpc conn; some ({ b with input := a }, .int c)
  | .sgetn n => (b.input.xsgetn conn n).map fun (a, n, s) => ({ b with input := a }, .chars n s)
  | .sputbackc c => let (a, c) := b.input.sputbackc c; some ({ b with input := a }, .int c)
  | .sungetc => let (a, c) := b.input.sungetc; some ({ b with input := a }, .int c)

/-- A sequence of operations, with the results of all of them. -/
def run (conn : Completions) (b : TCPStreamBuffer) :
    List StreamOperation → Option (TCPStreamBuffer × List StreamResult)
  | [] => some (b, [])
  | op :: ops =>
    match b.step conn op with
    | none => none
    | some (b, r) => (b.run conn ops).map fun (b, rs) => (b, r :: rs)

end TCPStreamBuffer

/-! ### The streams it stands for -/

namespace Completions

/-- The bytes that the first reads bring. -/
def received (conn : Completions) : ℕ → Bytes
  | 0 => []
  | k + 1 => received conn k ++ (conn.readSome k).getD []

/-- The received byte of each number; every read brings one at least. -/
def byteAt (conn : Completions) (i : ℕ) : Byte := (conn.received (i + 1)).getD i 0

variable {conn : Completions}

lemma received_prefix (conn : Completions) {j k : ℕ} (h : j ≤ k) : conn.received j <+: conn.received k := by
  induction h with
  | refl => exact List.prefix_refl _
  | step _ ih => exact ih.trans (List.prefix_append _ _)

lemma NoErrors.le_length (h : conn.NoErrors) (k : ℕ) : k ≤ (conn.received k).length := by
  induction k with
  | zero => exact Nat.zero_le _
  | succ k ih =>
    obtain ⟨piece, hpiece, hne, -⟩ := h.readSome k
    have hpos : 0 < piece.length := List.length_pos_iff.2 hne
    rw [received, hpiece, List.length_append, Option.getD_some]
    omega

lemma NoErrors.getElem?_received (h : conn.NoErrors) {k i : ℕ}
    (hi : i < (conn.received k).length) : (conn.received k)[i]? = some (conn.byteAt i) := by
  have hi' : i < (conn.received (i + 1)).length := h.le_length (i + 1)
  have hsome : (conn.received (i + 1))[i]? = some (conn.byteAt i) := by
    rw [byteAt, List.getD_eq_getElem?_getD, List.getElem?_eq_getElem hi', Option.getD_some]
  rcases Nat.le_total k (i + 1) with hle | hle
  · obtain ⟨t, ht⟩ := received_prefix conn hle
    rw [← hsome, ← ht, List.getElem?_append_left hi]
  · obtain ⟨t, ht⟩ := received_prefix conn hle
    rw [← hsome, ← ht, List.getElem?_append_left hi']

end Completions

/-- A cursor on the received bytes, and how far it has been. -/
structure Cursor where
  pos : ℕ := 0
  high : ℕ := 0
deriving DecidableEq

namespace Cursor

def advance (s : Cursor) (n : ℕ) : Cursor where
  pos := s.pos + n
  high := max s.high (s.pos + n)

def back (s : Cursor) : Cursor := { s with pos := s.pos - 1 }

/-- A character that was read can be put back, unless ten of them are put back already. -/
def CanPutBack (s : Cursor) : Prop := 0 < s.pos ∧ s.high - s.pos < putBackMax

instance (s : Cursor) : Decidable s.CanPutBack :=
  inferInstanceAs (Decidable (0 < s.pos ∧ s.high - s.pos < putBackMax))

end Cursor

namespace StreamOperation

/-- The bytes an operation puts. -/
def puts : StreamOperation → Bytes
  | .sputc c => [c]
  | .sputn s => s
  | _ => []

/-- Where an operation leaves the cursor. -/
def moves (s : Cursor) : StreamOperation → Cursor
  | .sbumpc => s.advance 1
  | .sgetn n => s.advance n
  | .sputbackc _ | .sungetc => s.back
  | _ => s

/-- What an operation returns, with the cursor on a sequence of bytes. -/
def returns (recv : ℕ → Byte) (s : Cursor) : StreamOperation → StreamResult
  | .sputc c => .int (.chr (some c))
  | .sputn w => .count w.length
  | .sync => .status 0
  | .sgetc | .sbumpc => .int (.chr (some (recv s.pos)))
  | .sgetn n => .chars n ((List.range' s.pos n).map fun i => some (recv i))
  | .sputbackc _ | .sungetc => .int (.chr (some (recv (s.pos - 1))))

/-- Only characters that were read are put back. -/
def Legal (recv : ℕ → Byte) (s : Cursor) : StreamOperation → Prop
  | .sputbackc c => s.CanPutBack ∧ recv (s.pos - 1) = c
  | .sungetc => s.CanPutBack
  | _ => True

instance (recv : ℕ → Byte) (s : Cursor) : (op : StreamOperation) → Decidable (op.Legal recv s)
  | .sputbackc c => inferInstanceAs (Decidable (s.CanPutBack ∧ recv (s.pos - 1) = c))
  | .sungetc => inferInstanceAs (Decidable s.CanPutBack)
  | .sputc _ | .sputn _ | .sync | .sgetc | .sbumpc | .sgetn _ => isTrue trivial

/-- What a sequence of operations returns. -/
def returnsAll (recv : ℕ → Byte) (s : Cursor) : List StreamOperation → List StreamResult
  | [] => []
  | op :: ops => op.returns recv s :: returnsAll recv (op.moves s) ops

def LegalAll (recv : ℕ → Byte) (s : Cursor) : List StreamOperation → Prop
  | [] => True
  | op :: ops => op.Legal recv s ∧ LegalAll recv (op.moves s) ops

instance decidableLegalAll (recv : ℕ → Byte) :
    (s : Cursor) → (ops : List StreamOperation) → Decidable (LegalAll recv s ops)
  | _, [] => isTrue trivial
  | s, op :: ops =>
    have := decidableLegalAll recv (op.moves s) ops
    inferInstanceAs (Decidable (op.Legal recv s ∧ LegalAll recv (op.moves s) ops))

end StreamOperation

/-! ### Writing -/

namespace PutArea

/-- The bytes that were sent and those in the put area are the bytes that were put. -/
structure Holds (a : PutArea) (put : Bytes) : Prop where
  length : a.writeBuf.length = writeBufferSize
  pptr_le : a.pptr ≤ writeBufferSize
  put : a.sent ++ a.writeBuf.take a.pptr = put.map some
  wild : a.wild = false

variable {a : PutArea} {put : Bytes} {conn : Completions}

/-- A word for which there is room is put. -/
lemma Holds.store (h : a.Holds put) {w : Bytes} (hw : a.pptr + w.length ≤ writeBufferSize) :
    Holds { a.store a.pptr w with pptr := a.pptr + w.length } (put ++ w) := by
  have hroom : a.pptr + w.length ≤ a.writeBuf.length := by rw [h.length]; exact hw
  refine ⟨?_, hw, ?_, ?_⟩
  · exact (Memory.length_write _ _ _).trans h.length
  · calc a.sent ++ (Memory.write a.writeBuf a.pptr w).take (a.pptr + w.length)
        = (a.sent ++ a.writeBuf.take a.pptr) ++ w.map some := by
          rw [Memory.take_write a.writeBuf hroom, List.append_assoc]
      _ = (put ++ w).map some := by rw [h.put, List.map_append]
  · have hfits : Memory.Fits a.writeBuf a.pptr w := Or.inr hroom
    simp [PutArea.store, h.wild, hfits]

/-- A flush sends what is in the put area. -/
lemma Holds.flushOutput (h : a.Holds put) (hconn : conn.NoErrors) :
    (a.flushOutput conn).1.Holds put ∧ (a.flushOutput conn).1.pptr = 0 ∧
      (a.flushOutput conn).1.sent = put.map some ∧ (a.flushOutput conn).2 = some a.pptr := by
  unfold PutArea.flushOutput
  by_cases hp : 0 < a.pptr
  · have hlen : (a.writeBuf.take a.pptr).length = a.pptr := by
      rw [List.length_take, h.length]
      exact Nat.min_eq_left h.pptr_le
    simp only [if_pos hp, asyncWrite, hconn.write, hlen, Nat.sub_self, Bool.false_eq_true, if_false,
      true_and]
    rw [List.take_of_length_le (Nat.le_of_eq hlen)]
    exact ⟨⟨h.length, Nat.zero_le _, by rw [List.take_zero, List.append_nil]; exact h.put, h.wild⟩,
      h.put, trivial⟩
  · have hzero : a.pptr = 0 := by omega
    have hput := h.put
    rw [hzero, List.take_zero, List.append_nil] at hput
    simp only [if_neg hp]
    exact ⟨h, hzero, hput, by rw [hzero]⟩

/-- Between two operations there is room for the character of `overflow`. -/
structure Ready (a : PutArea) (put : Bytes) : Prop extends a.Holds put where
  pptr_le_epptr : a.pptr ≤ epptr

/-- A flushed area is ready. -/
lemma Holds.ready (h : a.Holds put) (hp : a.pptr = 0) : a.Ready put := ⟨h, by omega⟩

lemma Ready.sync (h : a.Ready put) (hconn : conn.NoErrors) :
    (a.sync conn).1.Ready put ∧ (a.sync conn).1.sent = put.map some ∧ (a.sync conn).2 = 0 := by
  obtain ⟨hholds, hpptr, hsent, hret⟩ := h.toHolds.flushOutput hconn
  refine ⟨hholds.ready hpptr, hsent, ?_⟩
  simp [PutArea.sync, hret]

lemma Ready.sputc (h : a.Ready put) (hconn : conn.NoErrors) (c : Byte) :
    (a.sputc conn c).1.Ready (put ++ [c]) ∧ (a.sputc conn c).2 = .chr (some c) := by
  have hle := h.pptr_le_epptr
  have hstored := h.toHolds.store (w := [c]) (by
    rw [List.length_singleton]
    unfold epptr writeBufferSize at hle
    unfold writeBufferSize
    omega)
  rw [List.length_singleton] at hstored
  unfold PutArea.sputc
  by_cases hroom : a.pptr < epptr
  · rw [if_pos hroom]
    exact ⟨⟨hstored, by show a.pptr + 1 ≤ epptr; omega⟩, rfl⟩
  · obtain ⟨hholds, hpptr, -, hret⟩ := hstored.flushOutput hconn
    rw [if_neg hroom]
    refine ⟨hholds.ready hpptr, ?_⟩
    simp only [overflow, Option.toList_some, hret, reduceCtorEq, if_false]
    rfl

lemma Ready.xsputn (h : a.Ready put) (hconn : conn.NoErrors) (w : Bytes) :
    (a.xsputn conn w).1.Ready (put ++ w) ∧ (a.xsputn conn w).2 = w.length := by
  have hle := h.pptr_le_epptr
  have hend : epptr + 1 = writeBufferSize := rfl
  unfold PutArea.xsputn
  by_cases hroom : w.length ≤ epptr - a.pptr
  · rw [if_pos hroom]
    refine ⟨⟨h.toHolds.store (by omega), ?_⟩, rfl⟩
    show a.pptr + w.length ≤ epptr
    omega
  · -- the area is filled up and flushed
    rw [if_neg hroom]
    have hlen : (w.take (epptr - a.pptr)).length = epptr - a.pptr := by
      rw [List.length_take]
      omega
    have hfilled : Holds (if 0 < epptr - a.pptr then
        { a.store a.pptr (w.take (epptr - a.pptr)) with pptr := a.pptr + (epptr - a.pptr) } else a)
        (put ++ w.take (epptr - a.pptr)) := by
      by_cases hsome : 0 < epptr - a.pptr
      · rw [if_pos hsome]
        have hstored := h.toHolds.store (w := w.take (epptr - a.pptr)) (by rw [hlen]; omega)
        rw [hlen] at hstored
        exact hstored
      · have hzero : epptr - a.pptr = 0 := by omega
        rw [if_neg hsome, hzero, List.take_zero, List.append_nil]
        exact h.toHolds
    generalize (if 0 < epptr - a.pptr then
        { a.store a.pptr (w.take (epptr - a.pptr)) with pptr := a.pptr + (epptr - a.pptr) } else a) =
      filled at hfilled
    obtain ⟨hholds, hpptr, hsent, hret⟩ := hfilled.flushOutput hconn
    simp only [hret, reduceCtorEq, if_false]
    generalize (filled.flushOutput conn).1 = flushed at hholds hpptr hsent
    have hrest : (w.drop (epptr - a.pptr)).length = w.length - (epptr - a.pptr) :=
      List.length_drop
    have hsplit : put ++ w.take (epptr - a.pptr) ++ w.drop (epptr - a.pptr) = put ++ w := by
      rw [List.append_assoc, List.take_append_drop]
    by_cases hlarge : writeBufferSize - 1 ≤ w.length - (epptr - a.pptr)
    · rw [if_pos hlarge]
      simp only [asyncWrite, hconn.write, List.length_map, hrest]
      refine ⟨⟨⟨hholds.length, hholds.pptr_le, ?_, hholds.wild⟩, ?_⟩, by omega⟩
      · have htake : ((w.drop (epptr - a.pptr)).map some).take (w.length - (epptr - a.pptr)) =
            (w.drop (epptr - a.pptr)).map some := by
          apply List.take_of_length_le
          rw [List.length_map, hrest]
        simp only [htake, hpptr, List.take_zero, List.append_nil, hsent]
        rw [← List.map_append, hsplit]
      · show flushed.pptr ≤ epptr
        omega
    · rw [if_neg hlarge]
      have hstored := hholds.store (w := w.drop (epptr - a.pptr)) (by omega)
      rw [hsplit, hrest, hpptr] at hstored
      rw [hpptr]
      refine ⟨⟨hstored, ?_⟩, rfl⟩
      show 0 + (w.length - (epptr - a.pptr)) ≤ epptr
      omega

end PutArea

/-! ### Reading -/

namespace GetArea

/-- The cells of the get area are the received bytes from the number `base` onwards, and all bytes
that can be put back are among them. -/
structure Views (conn : Completions) (base : ℕ) (a : GetArea) (s : Cursor) : Prop where
  length : a.readBuf.length = readBufferSize
  eback_le : a.eback ≤ a.gptr
  gptr_le : a.gptr ≤ a.egptr
  egptr_le : a.egptr ≤ readBufferSize
  pos : s.pos + a.eback = base + a.gptr
  received : (conn.received a.reads).length + a.eback = base + a.egptr
  pos_le : s.pos ≤ s.high
  high_le : s.high + a.eback ≤ base + a.egptr
  base_le : base ≤ s.high - putBackMax
  cell : ∀ j, a.eback + j < a.egptr →
    a.readBuf[a.eback + j]? = some (some (conn.byteAt (base + j)))
  wild : a.wild = false

variable {conn : Completions} {base : ℕ} {a : GetArea} {s : Cursor}

/-- The character in front of the end of the area. -/
lemma Views.deref (h : Views conn base a s) {i : ℕ} (hlow : a.eback ≤ i) (hi : i < a.egptr) :
    a.deref i = some (conn.byteAt (base + (i - a.eback))) := by
  have hcell := h.cell (i - a.eback) (by omega)
  rw [show a.eback + (i - a.eback) = i by omega] at hcell
  rw [GetArea.deref, hcell]
  rfl

lemma Views.deref_gptr (h : Views conn base a s) (hlt : a.gptr < a.egptr) :
    a.deref a.gptr = some (conn.byteAt s.pos) := by
  have hpos := h.pos
  have hlow := h.eback_le
  rw [h.deref hlow hlt, show base + (a.gptr - a.eback) = s.pos by omega]

/-- Characters of the area are taken. -/
lemma Views.advance (h : Views conn base a s) {n : ℕ} (hn : n ≤ a.egptr - a.gptr) :
    Views conn base { a with gptr := a.gptr + n } (s.advance n) := by
  have hpos := h.pos
  have hgptr := h.gptr_le
  have hbase := h.base_le
  have hhigh := h.high_le
  refine ⟨h.length, Nat.le_add_right_of_le h.eback_le, ?_, h.egptr_le, ?_, h.received,
    Nat.le_max_right _ _, ?_, ?_, h.cell, h.wild⟩
  · show a.gptr + n ≤ a.egptr
    omega
  · show s.pos + n + a.eback = base + (a.gptr + n)
    omega
  · show max s.high (s.pos + n) + a.eback ≤ base + a.egptr
    omega
  · show base ≤ max s.high (s.pos + n) - putBackMax
    omega

/-- The character in front of the cursor is put back. -/
lemma Views.back (h : Views conn base a s) (hlt : a.eback < a.gptr) :
    Views conn base { a with gptr := a.gptr - 1 } s.back := by
  have hpos := h.pos
  have hgptr := h.gptr_le
  have hle := h.pos_le
  refine ⟨h.length, ?_, ?_, h.egptr_le, ?_, h.received, ?_, h.high_le, h.base_le, h.cell, h.wild⟩
  · show a.eback ≤ a.gptr - 1
    omega
  · show a.gptr - 1 ≤ a.egptr
    omega
  · show s.pos - 1 + a.eback = base + (a.gptr - 1)
    omega
  · show s.pos - 1 ≤ s.high
    omega

/-- What stands in front of the read position after a refill: the last bytes that were read. -/
lemma Views.kept (h : Views conn base a s) {n : ℕ} (hn : n ≤ a.gptr - a.eback)
    (hmax : n ≤ putBackMax) :
    ∃ moved, (if 0 < n then Memory.move a.readBuf (putBackMax - n) (a.gptr - n) n
        else a.readBuf) = moved ∧ moved.length = readBufferSize ∧
      ∀ j < n, moved[putBackMax - n + j]? = some (some (conn.byteAt (s.pos - n + j))) := by
  have hpos := h.pos
  have hlow := h.eback_le
  have hgptr := h.gptr_le
  have hend := h.egptr_le
  have hlen := h.length
  have hroom : putBackMax ≤ readBufferSize := by decide
  refine ⟨_, rfl, ?_, ?_⟩
  · by_cases hsome : 0 < n
    · rw [if_pos hsome, Memory.length_move _ (by omega) (by omega), hlen]
    · rw [if_neg hsome, hlen]
  · intro j hj
    rw [if_pos (by omega : 0 < n), Memory.getElem?_move _ (by omega) (by omega) hj]
    have hcell := h.cell (a.gptr - n + j - a.eback) (by omega)
    rw [show a.eback + (a.gptr - n + j - a.eback) = a.gptr - n + j by omega] at hcell
    rw [hcell, show base + (a.gptr - n + j - a.eback) = s.pos - n + j by omega]

/-- If the area is used up, its last bytes are kept in front of those that are read. -/
lemma Views.refill (h : Views conn base a s) (hconn : conn.NoErrors) (he : a.gptr = a.egptr) :
    ∃ base', Views conn base' (a.underflow conn).1 s ∧
      (a.underflow conn).1.gptr < (a.underflow conn).1.egptr ∧
      (a.underflow conn).2 = .chr (some (conn.byteAt s.pos)) := by
  obtain ⟨piece, hpiece, hne, hfit⟩ := hconn.readSome a.reads
  have hpos := h.pos
  have hlow := h.eback_le
  have hreceived := h.received
  have hle := h.pos_le
  have hhigh := h.high_le
  have hbase := h.base_le
  have hroom : putBackMax ≤ readBufferSize := by decide
  have hpieceLen : 0 < piece.length := List.length_pos_iff.2 hne
  -- the number of bytes that are kept
  obtain ⟨n, hn⟩ : ∃ n, (if putBackMax < a.gptr - a.eback then putBackMax
      else a.gptr - a.eback) = n := ⟨_, rfl⟩
  have hnMin : n = min (a.gptr - a.eback) putBackMax := by
    rw [← hn]
    split <;> omega
  obtain ⟨moved, hmoved, hmovedLen, hkept⟩ := h.kept (n := n) (by omega) (by omega)
  obtain ⟨a', ha'⟩ : ∃ a', a' = GetArea.mk (Memory.write moved putBackMax piece) (putBackMax - n)
      putBackMax (putBackMax + piece.length) (a.reads + 1)
      (a.wild || ! decide (Memory.Fits moved putBackMax piece)) := ⟨_, rfl⟩
  have hunderflow : a.underflow conn = (a', .chr (a'.deref a'.gptr)) := by
    rw [underflow, if_neg (by omega), ha']
    simp only [hn, hmoved, hpiece]
  have hnext : conn.received (a.reads + 1) = conn.received a.reads ++ piece := by
    rw [Completions.received, hpiece, Option.getD_some]
  have hviews : Views conn (s.pos - n) a' s := by
    subst ha'
    refine ⟨?_, Nat.sub_le _ _, Nat.le_add_right _ _, ?_, ?_, ?_, hle, ?_, ?_, ?_, ?_⟩
    · rw [Memory.length_write, hmovedLen]
    · show putBackMax + piece.length ≤ readBufferSize
      omega
    · show s.pos + (putBackMax - n) = s.pos - n + putBackMax
      omega
    · show (conn.received (a.reads + 1)).length + (putBackMax - n) =
        s.pos - n + (putBackMax + piece.length)
      rw [hnext, List.length_append]
      omega
    · show s.high + (putBackMax - n) ≤ s.pos - n + (putBackMax + piece.length)
      omega
    · show s.pos - n ≤ s.high - putBackMax
      omega
    · intro j hj
      have hj : putBackMax - n + j < putBackMax + piece.length := hj
      show (Memory.write moved putBackMax piece)[putBackMax - n + j]? = _
      rw [Memory.getElem?_write, hmovedLen]
      by_cases hold : j < n
      · rw [if_neg (by omega), hkept j hold]
      · rw [if_pos (by omega)]
        have hbyte := hconn.getElem?_received (k := a.reads + 1) (i := s.pos - n + j) (by
          rw [hnext, List.length_append]
          omega)
        rw [hnext, List.getElem?_append_right (by omega)] at hbyte
        rw [← hbyte, show s.pos - n + j - (conn.received a.reads).length =
          putBackMax - n + j - putBackMax by omega]
    · have hfits : Memory.Fits moved putBackMax piece := Or.inr (by omega)
      simp [h.wild, hfits]
  have hlt : a'.gptr < a'.egptr := by
    rw [ha']
    exact Nat.lt_add_of_pos_right hpieceLen
  rw [hunderflow]
  exact ⟨s.pos - n, hviews, hlt, by rw [hviews.deref_gptr hlt]⟩

/-- `underflow` shows the character at the cursor. -/
lemma Views.underflow (h : Views conn base a s) (hconn : conn.NoErrors) :
    ∃ base', Views conn base' (a.underflow conn).1 s ∧
      (a.underflow conn).1.gptr < (a.underflow conn).1.egptr ∧
      (a.underflow conn).2 = .chr (some (conn.byteAt s.pos)) := by
  by_cases hlt : a.gptr < a.egptr
  · have heq : a.underflow conn = (a, .chr (a.deref a.gptr)) := by
      rw [GetArea.underflow, if_pos hlt]
    rw [heq]
    exact ⟨base, h, hlt, by rw [h.deref_gptr hlt]⟩
  · exact h.refill hconn (Nat.le_antisymm h.gptr_le (Nat.le_of_not_lt hlt))

lemma Views.sgetc (h : Views conn base a s) (hconn : conn.NoErrors) :
    ∃ base', Views conn base' (a.sgetc conn).1 s ∧
      (a.sgetc conn).2 = .chr (some (conn.byteAt s.pos)) := by
  have heq : a.sgetc conn = a.underflow conn := by
    rw [GetArea.sgetc, GetArea.underflow]
    split <;> rfl
  obtain ⟨base', hviews, -, hret⟩ := h.underflow hconn
  rw [heq]
  exact ⟨base', hviews, hret⟩

lemma Views.sbumpc (h : Views conn base a s) (hconn : conn.NoErrors) :
    ∃ base', Views conn base' (a.sbumpc conn).1 (s.advance 1) ∧
      (a.sbumpc conn).2 = .chr (some (conn.byteAt s.pos)) := by
  have heq : a.sbumpc conn = a.uflow conn := by
    rw [GetArea.sbumpc, GetArea.uflow, GetArea.underflow]
    split
    · rfl
    · rfl
  obtain ⟨base', hviews, hlt, hret⟩ := h.underflow hconn
  rw [heq, GetArea.uflow]
  simp only [hret, reduceCtorEq, if_false]
  exact ⟨base', hviews.advance (by omega), by rw [hviews.deref_gptr hlt]⟩

/-- What `xsgetn` copies from the area. -/
lemma Views.copied (h : Views conn base a s) {n : ℕ} (hn : n ≤ a.egptr - a.gptr) :
    (a.readBuf.drop a.gptr).take n = (List.range' s.pos n).map fun i => some (conn.byteAt i) := by
  have hpos := h.pos
  have hlow := h.eback_le
  apply List.ext_getElem?
  intro j
  by_cases hj : j < n
  · have hcell := h.cell (a.gptr + j - a.eback) (by omega)
    rw [show a.eback + (a.gptr + j - a.eback) = a.gptr + j by omega] at hcell
    rw [List.getElem?_take_of_lt hj, List.getElem?_drop, hcell, List.getElem?_map,
      List.getElem?_range' hj, Option.map_some,
      show base + (a.gptr + j - a.eback) = s.pos + 1 * j by omega]
  · rw [List.getElem?_take_eq_none (by omega), List.getElem?_eq_none]
    rw [List.length_map, List.length_range']
    omega

/-- The loop reads what remains; if the area is used up, its first round copies nothing. -/
lemma Views.xsgetnLoop (hconn : conn.NoErrors) {fuel n : ℕ} (h : Views conn base a s)
    (hfuel : n + 1 < fuel ∨ n + 1 = fuel ∧ (n = 0 ∨ a.gptr < a.egptr)) (out : List (Option Byte)) :
    ∃ a' base', GetArea.xsgetnLoop conn fuel a n out =
        some (a', 0, out ++ (List.range' s.pos n).map fun i => some (conn.byteAt i)) ∧
      Views conn base' a' (s.advance n) := by
  induction fuel generalizing a base s n out with
  | zero => omega
  | succ fuel ih =>
    have hgptr := h.gptr_le
    have hle := h.pos_le
    rw [GetArea.xsgetnLoop]
    by_cases hzero : n = 0
    · subst hzero
      refine ⟨a, base, ?_, ?_⟩
      · rw [if_pos rfl, List.range'_zero, List.map_nil, List.append_nil]
      · have hadvance : s.advance 0 = s := by
          simp only [Cursor.advance, Nat.add_zero, Nat.max_eq_left hle]
        rw [hadvance]
        exact h
    · rw [if_neg hzero]
      obtain ⟨k, hk⟩ : ∃ k, (if n ≤ a.egptr - a.gptr then n else a.egptr - a.gptr) = k :=
        ⟨_, rfl⟩
      have hkMin : k = min n (a.egptr - a.gptr) := by
        rw [← hk]
        split <;> omega
      have hcopied := h.copied (n := k) (by omega)
      have hadvanced := h.advance (n := k) (by omega)
      -- the rest is read from where the first bytes end
      have hjoin : (List.range' s.pos k ++ List.range' (s.pos + k) (n - k)) =
          List.range' s.pos n := by
        rw [List.range'_append_1, show k + (n - k) = n by omega]
      have hcursor : (s.advance k).advance (n - k) = s.advance n := by
        simp only [Cursor.advance, Cursor.mk.injEq]
        omega
      have hgoesOn : ∀ {a₁ base₁}, Views conn base₁ a₁ (s.advance k) →
          n - k + 1 < fuel ∨ n - k + 1 = fuel ∧ (n - k = 0 ∨ a₁.gptr < a₁.egptr) →
          ∃ a' base', GetArea.xsgetnLoop conn fuel a₁ (n - k)
              (out ++ (List.range' s.pos k).map fun i => some (conn.byteAt i)) =
                some (a', 0, out ++ (List.range' s.pos n).map fun i => some (conn.byteAt i)) ∧
            Views conn base' a' (s.advance n) := by
        intro a₁ base₁ hviews hfuel'
        obtain ⟨a', base', hloop, hviews'⟩ := ih hviews hfuel'
          (out ++ (List.range' s.pos k).map fun i => some (conn.byteAt i))
        refine ⟨a', base', ?_, ?_⟩
        · rw [hloop, ← hjoin, List.map_append, List.append_assoc]
          rfl
        · rw [← hcursor]
          exact hviews'
      simp only [hk, hcopied]
      by_cases hrest : 0 < n - k
      · rw [if_pos hrest]
        obtain ⟨base', hviews, hlt, hret⟩ := hadvanced.underflow hconn
        simp only [hret, reduceCtorEq, if_false]
        exact hgoesOn hviews (by omega)
      · rw [if_neg hrest]
        exact hgoesOn hadvanced (by omega)

lemma Views.xsgetn (h : Views conn base a s) (hconn : conn.NoErrors) (n : ℕ) :
    ∃ a' base', a.xsgetn conn n =
        some (a', n, (List.range' s.pos n).map fun i => some (conn.byteAt i)) ∧
      Views conn base' a' (s.advance n) := by
  obtain ⟨a', base', hloop, hviews⟩ := h.xsgetnLoop hconn
    (Or.inl (Nat.lt_succ_self (n + 1))) []
  refine ⟨a', base', ?_, hviews⟩
  rw [GetArea.xsgetn, hloop]
  rfl

/-- A character that can be put back is still in the area. -/
lemma Views.eback_lt (h : Views conn base a s) (hs : s.CanPutBack) :
    a.eback < a.gptr ∧ a.deref (a.gptr - 1) = some (conn.byteAt (s.pos - 1)) := by
  have hpos := h.pos
  have hbase := h.base_le
  have hle := h.pos_le
  have hgptr := h.gptr_le
  have hlow := h.eback_le
  obtain ⟨hfirst, hdepth⟩ := hs
  refine ⟨by omega, ?_⟩
  rw [h.deref (by omega) (by omega), show base + (a.gptr - 1 - a.eback) = s.pos - 1 by omega]

lemma Views.sungetc (h : Views conn base a s) (hs : s.CanPutBack) :
    Views conn base a.sungetc.1 s.back ∧
      a.sungetc.2 = .chr (some (conn.byteAt (s.pos - 1))) := by
  obtain ⟨hlt, hcell⟩ := h.eback_lt hs
  rw [GetArea.sungetc, if_pos hlt]
  exact ⟨h.back hlt, by rw [hcell]⟩

lemma Views.sputbackc (h : Views conn base a s) (hs : s.CanPutBack) {c : Byte}
    (hc : conn.byteAt (s.pos - 1) = c) :
    Views conn base (a.sputbackc c).1 s.back ∧
      (a.sputbackc c).2 = .chr (some (conn.byteAt (s.pos - 1))) := by
  obtain ⟨hlt, hcell⟩ := h.eback_lt hs
  rw [GetArea.sputbackc, if_pos ⟨hlt, by rw [hcell, hc]⟩]
  exact ⟨h.back hlt, by rw [hcell]⟩

end GetArea

/-! ### Whole sequences of operations -/

namespace TCPStreamBuffer

/-- The put area holds the bytes that were put, and the get area shows the received bytes around
the cursor. -/
def Serves (conn : Completions) (b : TCPStreamBuffer) (put : Bytes) (s : Cursor) : Prop :=
  b.output.Ready put ∧ ∃ base, b.input.Views conn base s

variable {conn : Completions} {b : TCPStreamBuffer} {put : Bytes} {s : Cursor}

lemma serves_setupBuffers : setupBuffers.Serves conn [] {} := by
  refine ⟨⟨⟨List.length_replicate, Nat.zero_le _, ?_, rfl⟩, Nat.zero_le _⟩, 0, ?_⟩
  · rw [show setupBuffers.output.pptr = 0 from rfl, List.take_zero]
    rfl
  · refine ⟨List.length_replicate, Nat.le_refl _, Nat.le_refl _, by decide, rfl, rfl,
      Nat.le_refl _, by decide, by decide, ?_, rfl⟩
    intro j hj
    exact absurd hj (by show ¬ putBackMax + j < putBackMax; omega)

/-- One operation. -/
lemma Serves.step (h : b.Serves conn put s) (hconn : conn.NoErrors) {op : StreamOperation}
    (hop : op.Legal conn.byteAt s) :
    ∃ b', b.step conn op = some (b', op.returns conn.byteAt s) ∧
      b'.Serves conn (put ++ op.puts) (op.moves s) := by
  obtain ⟨hout, base, hin⟩ := h
  have hnone : put = put ++ [] := (List.append_nil put).symm
  cases op with
  | sputc c =>
    obtain ⟨hready, hret⟩ := hout.sputc hconn c
    exact ⟨{ b with output := (b.output.sputc conn c).1 }, by
      simp only [TCPStreamBuffer.step, hret]; rfl, hready, base, hin⟩
  | sputn w =>
    obtain ⟨hready, hret⟩ := hout.xsputn hconn w
    exact ⟨{ b with output := (b.output.xsputn conn w).1 }, by
      simp only [TCPStreamBuffer.step, hret]; rfl, hready, base, hin⟩
  | sync =>
    obtain ⟨hready, -, hret⟩ := hout.sync hconn
    exact ⟨{ b with output := (b.output.sync conn).1 }, by
      simp only [TCPStreamBuffer.step, hret]; rfl, hnone ▸ hready, base, hin⟩
  | sgetc =>
    obtain ⟨base', hviews, hret⟩ := hin.sgetc hconn
    exact ⟨{ b with input := (b.input.sgetc conn).1 }, by
      simp only [TCPStreamBuffer.step, hret]; rfl, hnone ▸ hout, base', hviews⟩
  | sbumpc =>
    obtain ⟨base', hviews, hret⟩ := hin.sbumpc hconn
    exact ⟨{ b with input := (b.input.sbumpc conn).1 }, by
      simp only [TCPStreamBuffer.step, hret]; rfl, hnone ▸ hout, base', hviews⟩
  | sgetn n =>
    obtain ⟨a', base', hget, hviews⟩ := hin.xsgetn hconn n
    exact ⟨{ b with input := a' }, by
      simp only [TCPStreamBuffer.step, hget]; rfl, hnone ▸ hout, base', hviews⟩
  | sputbackc c =>
    obtain ⟨hviews, hret⟩ := hin.sputbackc hop.1 hop.2
    exact ⟨{ b with input := (b.input.sputbackc c).1 }, by
      simp only [TCPStreamBuffer.step, hret]; rfl, hnone ▸ hout, base, hviews⟩
  | sungetc =>
    obtain ⟨hviews, hret⟩ := hin.sungetc hop
    exact ⟨{ b with input := b.input.sungetc.1 }, by
      simp only [TCPStreamBuffer.step, hret]; rfl, hnone ▸ hout, base, hviews⟩

/-- A sequence of operations. -/
lemma Serves.run (hconn : conn.NoErrors) {ops : List StreamOperation}
    (h : b.Serves conn put s) (hops : StreamOperation.LegalAll conn.byteAt s ops) :
    ∃ b' s', b.run conn ops = some (b', StreamOperation.returnsAll conn.byteAt s ops) ∧
      b'.Serves conn (put ++ ops.flatMap StreamOperation.puts) s' := by
  induction ops generalizing b put s with
  | nil =>
    refine ⟨b, s, rfl, ?_⟩
    rw [List.flatMap_nil, List.append_nil]
    exact h
  | cons op ops ih =>
    obtain ⟨b₁, hstep, h₁⟩ := h.step hconn hops.1
    obtain ⟨b', s', hrun, h'⟩ := ih h₁ hops.2
    refine ⟨b', s', ?_, ?_⟩
    · rw [TCPStreamBuffer.run, hstep]
      simp only [hrun]
      rfl
    · rw [List.flatMap_cons, ← List.append_assoc]
      exact h'

/-- Over a connection without errors every sequence of operations returns what the received bytes
at the cursor say, no copy misses a buffer, and what is sent, once it is flushed, are the bytes
that were put. -/
theorem faithful_stream (hconn : conn.NoErrors) {ops : List StreamOperation}
    (hops : StreamOperation.LegalAll conn.byteAt {} ops) :
    ∃ b, setupBuffers.run conn ops = some (b, StreamOperation.returnsAll conn.byteAt {} ops) ∧
      b.input.wild = false ∧ b.output.wild = false ∧
      b.output.sent ++ b.output.writeBuf.take b.output.pptr =
        (ops.flatMap StreamOperation.puts).map some ∧
      (b.output.sync conn).1.sent = (ops.flatMap StreamOperation.puts).map some ∧
      (b.output.sync conn).2 = 0 := by
  obtain ⟨b, s, hrun, hready, base, hviews⟩ := serves_setupBuffers.run hconn hops
  obtain ⟨-, hsent, hret⟩ := hready.sync hconn
  exact ⟨b, hrun, hviews.wild, hready.wild, hready.put, hsent, hret⟩

/-- Characters are put back over the end of a piece, and read again. -/
theorem faithful_stream_pieces :
    ∃ b, setupBuffers.run ⟨fun _ => some (ascii "ab"), fun _ n => (false, n)⟩
        [.sputc 120, .sgetn 3, .sungetc, .sputbackc 98, .sbumpc, .sputn (ascii "yz"), .sgetc] =
        some (b, [.int (.chr (some 120)), .chars 3 [some 97, some 98, some 97],
          .int (.chr (some 97)), .int (.chr (some 98)), .int (.chr (some 98)), .count 2,
          .int (.chr (some 97))]) ∧
      (b.output.sync ⟨fun _ => some (ascii "ab"), fun _ n => (false, n)⟩).1.sent =
        (ascii "xyz").map some := by
  have hconn : Completions.NoErrors ⟨fun _ => some (ascii "ab"), fun _ n => (false, n)⟩ :=
    ⟨fun _ => ⟨ascii "ab", rfl, by decide, by decide⟩, fun _ _ => rfl⟩
  obtain ⟨b, hrun, -, -, -, hsent, -⟩ := faithful_stream hconn (by decide : StreamOperation.LegalAll
    _ {} [.sputc 120, .sgetn 3, .sungetc, .sputbackc 98, .sbumpc, .sputn (ascii "yz"), .sgetc])
  exact ⟨b, hrun, hsent⟩

end TCPStreamBuffer

end PionCore.Net
