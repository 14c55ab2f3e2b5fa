/-
# Sending a file

`DiskFileSender` sends a file with a response writer: in one piece, or piece by piece in chunks.
The pieces come from the content that is cached, or are read from the file into a buffer that is
allocated for the first of them.
-/
import PionCore.Lib.Memory
import PionCore.Net.HTTPWriter

namespace PionCore.Net

open PionCore.Lib

/-- A file that can be read, and is not changed while it is sent.  Its size is a
`std::streamsize`. -/
structure UnchangedFile where
  bytes : Bytes
  size_lt : bytes.length < 2 ^ 63

/-- The functions of the writer that send. -/
inductive SendKind where
  /-- `send` -/
  | plain
  /-- `sendChunk` -/
  | chunk
  /-- `sendFinalChunk` -/
  | finalChunk
deriving DecidableEq

/-- A call of one of these functions, with the content that is sent. -/
structure FileSend where
  kind : SendKind
  payload : Bytes
deriving DecidableEq

/-- The function that is called when a write is done. -/
inductive SendHandler where
  /-- `HTTPResponseWriter::handleWrite` -/
  | writer
  /-- `DiskFileSender::handleWrite` -/
  | sender
deriving DecidableEq

/-- `DiskFileSender`.  Of `m_disk_file` there are the size and the content; `fileStream` is the
position in the file, if it is open. -/
structure DiskFileSender where
  fileSize : ℕ
  fileContent : Option (List (Option Byte)) := none
  writer : HTTPWriter := {}
  fileStream : Option ℕ := none
  contentBuf : Option (List (Option Byte)) := none
  maxChunkSize : ℕ := 0
  fileBytesToSend : ℕ := 0
  bytesSent : ℕ := 0
  /-- what was sent -/
  sends : List FileSend := []
  /-- the handler of the write that is not done -/
  pending : Option SendHandler := none
  /-- how often the connection was finished -/
  finished : ℕ := 0
  /-- memory outside of the content or the buffer was used, or memory that was never written -/
  outside : Bool := false
deriving DecidableEq

namespace DiskFileSender

variable (header : Bytes)

/-- A send of what the writer holds. -/
def sendWith (s : DiskFileSender) (kind : SendKind) (handler : SendHandler) : DiskFileSender :=
  let writer :=
    match kind with
    | .plain => (s.writer.send header).2
    | .chunk => (s.writer.sendChunk header).2
    | .finalChunk => (s.writer.sendFinalChunk header).2
  { s with
    writer := writer
    sends := s.sends ++ [⟨kind, s.writer.flushContentStream.contentBuffers.flatten⟩]
    pending := some handler }

/-- The end of `send`: the bytes from `offset` on are given to the writer. -/
def sendContent (s : DiskFileSender) (content : List (Option Byte)) (offset : ℕ) :
    DiskFileSender :=
  let cells := (content.drop offset).take s.fileBytesToSend
  let s := { s with
    writer := s.writer.writeNoCopy (cells.map fun c : Option Byte => c.getD 0)
    outside := s.outside || decide (content.length < offset + s.fileBytesToSend) ||
      decide (none ∈ cells) }
  if (s.bytesSent + s.fileBytesToSend) % sizeMod ≥ s.fileSize then
    if s.bytesSent > 0 then s.sendWith header .finalChunk .sender
    else s.sendWith header .plain .sender
  else s.sendWith header .chunk .sender

/-- `send`, of a file that is on the disk. -/
def send (disk : Bytes) (s : DiskFileSender) : DiskFileSender :=
  if s.fileSize ≤ s.bytesSent then s.sendWith header .plain .writer
  else
    let toSend := s.fileSize - s.bytesSent
    let toSend := if s.maxChunkSize > 0 ∧ toSend > s.maxChunkSize then s.maxChunkSize else toSend
    let s := { s with fileBytesToSend := toSend }
    match s.fileContent with
    | some content => s.sendContent header content s.bytesSent
    | none =>
        let position := s.fileStream.getD 0
        let cells := s.contentBuf.getD (List.replicate toSend none)
        let read := (disk.drop position).take toSend
        let content := Memory.write cells 0 read
        let s := { s with
          fileStream := some (position + read.length)
          contentBuf := some content
          outside := s.outside || ! decide (Memory.Fits cells 0 read) }
        -- a file that is too short is reported in the log, and nothing is sent
        if read.length < toSend then s else s.sendContent header content 0

/-- `handleWrite`, behind a write without an error. -/
def handleWrite (disk : Bytes) (s : DiskFileSender) : DiskFileSender :=
  let s := { s with bytesSent := (s.bytesSent + s.fileBytesToSend) % sizeMod }
  if s.bytesSent ≥ s.fileSize then { s with finished := s.finished + 1 }
  else { s with writer := s.writer.clear }.send header disk

/-- The write that is pending is done, without an error. -/
def complete (disk : Bytes) (s : DiskFileSender) : DiskFileSender :=
  match s.pending with
  | none => s
  | some .writer => { s with pending := none, finished := s.finished + 1 }
  | some .sender => { s with pending := none }.handleWrite header disk

/-- A sender for a file whose content is cached, or is not. -/
def create (file : UnchangedFile) (cached : Bool) (maxChunkSize : ℕ) : DiskFileSender where
  fileSize := file.bytes.length
  fileContent := if cached then some (file.bytes.map some) else none
  maxChunkSize := maxChunkSize

/-- The sender behind `n` writes. -/
def afterWrites (file : UnchangedFile) (cached : Bool) (maxChunkSize n : ℕ) : DiskFileSender :=
  (complete header file.bytes)^[n] ((create file cached maxChunkSize).send header file.bytes)

/-- What is meant by sending the file: everything is done, the pieces are the file, none of the
chunks is empty or too long, and the last piece, and no other one, is sent as the last one. -/
structure HasSent (s : DiskFileSender) (file : UnchangedFile) (maxChunkSize : ℕ) : Prop where
  done : s.pending = none
  finished : s.finished = 1
  inside : s.outside = false
  pieces : (s.sends.map FileSend.payload).flatten = file.bytes
  last : ∃ chunks final, s.sends = chunks ++ [final] ∧
    (∀ x ∈ chunks, x.kind = .chunk ∧ x.payload.length = maxChunkSize) ∧
    (maxChunkSize = 0 ∨ final.payload.length ≤ maxChunkSize) ∧
    (if maxChunkSize = 0 ∨ file.bytes.length ≤ maxChunkSize then
      chunks = [] ∧ final.kind = .plain else chunks ≠ [] ∧ final.kind = .finalChunk)

/-! ### What is sent -/

/-- A writer that holds nothing is given a word, and sends it. -/
lemma sends_writeNoCopy {w : HTTPWriter} (hw : w.Holds []) (data : Bytes) :
    (w.writeNoCopy data).flushContentStream.contentBuffers.flatten = data := by
  obtain ⟨hwrite, -⟩ := HTTPWriter.holds_writePayload hw (.writeNoCopy data)
  obtain ⟨hflush, hstream, -⟩ := HTTPWriter.holds_flushContentStream hwrite
  have hcontent := hflush.content
  rwa [hstream, List.append_nil] at hcontent

/-- The pieces of a file: `n` bytes behind the first `k` ones. -/
def piece (file : UnchangedFile) (k n : ℕ) : Bytes := (file.bytes.drop k).take n

/-- Where the sender is about to send what is behind the first `bytesSent` bytes. -/
structure AboutToSend (file : UnchangedFile) (s : DiskFileSender) : Prop where
  size : s.fileSize = file.bytes.length
  holds : s.writer.Holds []
  inside : s.outside = false
  unfinished : s.finished = 0
  le : s.bytesSent ≤ file.bytes.length
  content : s.fileContent = some (file.bytes.map some) ∨ s.fileContent = none
  stream : s.fileContent = none → s.fileStream.getD 0 = s.bytesSent
  buffer : ∀ cells ∈ s.contentBuf, 0 < s.maxChunkSize ∧ cells.length = s.maxChunkSize
  pieces : (s.sends.map FileSend.payload).flatten = file.bytes.take s.bytesSent
  chunks : ∀ x ∈ s.sends, x.kind = .chunk ∧ x.payload.length = s.maxChunkSize
  first : s.sends = [] ↔ s.bytesSent = 0
  more : s.sends ≠ [] → 0 < s.maxChunkSize ∧ s.maxChunkSize < file.bytes.length ∧
    s.bytesSent < file.bytes.length

/-- The number of bytes that are sent next. -/
def nextSize (s : DiskFileSender) : ℕ :=
  if s.maxChunkSize > 0 ∧ s.fileSize - s.bytesSent > s.maxChunkSize then s.maxChunkSize
  else s.fileSize - s.bytesSent

/-- What a send does that sends a piece. -/
structure HasSentPiece (s s' : DiskFileSender) (data : Bytes) : Prop where
  size : s'.fileSize = s.fileSize
  maxChunkSize : s'.maxChunkSize = s.maxChunkSize
  content : s'.fileContent = s.fileContent
  bytesSent : s'.bytesSent = s.bytesSent
  fileBytesToSend : s'.fileBytesToSend = s.nextSize
  pending : s'.pending = some .sender
  finished : s'.finished = s.finished
  inside : s'.outside = false
  stream : s.fileContent = none → s'.fileStream = some (s.bytesSent + s.nextSize)
  buffer : ∀ cells ∈ s'.contentBuf, cells.length = (s.contentBuf.map List.length).getD s.nextSize
  sends : s'.sends = s.sends ++ [⟨if s.bytesSent + s.nextSize ≥ s.fileSize then
    if s.bytesSent > 0 then .finalChunk else .plain else .chunk, data⟩]

lemma sendContent_eq {s : DiskFileSender} (hw : s.writer.Holds [])
    (hsize : s.bytesSent + s.fileBytesToSend < sizeMod) (content : List (Option Byte)) (offset : ℕ)
    (hfits : offset + s.fileBytesToSend ≤ content.length) {data : Bytes}
    (hdata : (content.drop offset).take s.fileBytesToSend = data.map some) :
    let s' := s.sendContent header content offset
    (s'.fileSize, s'.maxChunkSize, s'.fileContent, s'.bytesSent, s'.fileBytesToSend, s'.pending,
      s'.finished, s'.fileStream, s'.contentBuf) =
      (s.fileSize, s.maxChunkSize, s.fileContent, s.bytesSent, s.fileBytesToSend, some .sender,
        s.finished, s.fileStream, s.contentBuf) ∧ s'.outside = s.outside ∧
    s'.sends = s.sends ++ [⟨if s.bytesSent + s.fileBytesToSend ≥ s.fileSize then
      if s.bytesSent > 0 then .finalChunk else .plain else .chunk, data⟩] := by
  have hbytes : (data.map some).map (fun c : Option Byte => c.getD 0) = data := by
    simp [Function.comp_def]
  have hsent := sends_writeNoCopy hw data
  have hnone : none ∉ data.map some := by simp
  simp only [sendContent, hdata, hbytes, Nat.mod_eq_of_lt hsize]
  split_ifs <;> simp [sendWith, hsent, hfits]

lemma nextSize_pos {s : DiskFileSender} (h : s.bytesSent < s.fileSize) : 0 < s.nextSize := by
  rw [nextSize]
  split_ifs <;> omega

lemma nextSize_le {s : DiskFileSender} : s.nextSize ≤ s.fileSize - s.bytesSent := by
  rw [nextSize]
  split_ifs <;> omega

lemma length_piece (file : UnchangedFile) (k n : ℕ) (h : k + n ≤ file.bytes.length) :
    (piece file k n).length = n := by
  rw [piece, List.length_take, List.length_drop]
  omega

lemma send_cached {disk : Bytes} {s : DiskFileSender} (hsize : ¬ s.fileSize ≤ s.bytesSent)
    {content : List (Option Byte)} (h : s.fileContent = some content) :
    s.send header disk =
      { s with fileBytesToSend := s.nextSize }.sendContent header content s.bytesSent := by
  rw [send, if_neg hsize]
  cases s
  cases h
  rfl

/-- A block of the file is read into the buffer. -/
def readBlock (disk : Bytes) (s : DiskFileSender) : DiskFileSender :=
  let read := (disk.drop (s.fileStream.getD 0)).take s.nextSize
  let cells := s.contentBuf.getD (List.replicate s.nextSize none)
  { s with
    fileBytesToSend := s.nextSize
    fileStream := some (s.fileStream.getD 0 + read.length)
    contentBuf := some (Memory.write cells 0 read)
    outside := s.outside || ! decide (Memory.Fits cells 0 read) }

lemma send_streamed {disk : Bytes} {s : DiskFileSender} (hsize : ¬ s.fileSize ≤ s.bytesSent)
    (h : s.fileContent = none)
    (hread : s.fileStream.getD 0 + s.nextSize ≤ disk.length) :
    s.send header disk = (s.readBlock disk).sendContent header
      (Memory.write (s.contentBuf.getD (List.replicate s.nextSize none)) 0
        ((disk.drop (s.fileStream.getD 0)).take s.nextSize)) 0 := by
  have hlength : ¬ ((disk.drop (s.fileStream.getD 0)).take s.nextSize).length < s.nextSize := by
    rw [List.length_take, List.length_drop]
    omega
  rw [send, if_neg hsize]
  cases s
  cases h
  exact if_neg hlength

/-- The buffer that was allocated for the first piece is large enough for the next one. -/
lemma AboutToSend.room {file : UnchangedFile} {s : DiskFileSender} (h : AboutToSend file s) :
    s.nextSize ≤ (s.contentBuf.map List.length).getD s.nextSize := by
  cases hbuf : s.contentBuf with
  | none => exact Nat.le_refl _
  | some block =>
    obtain ⟨hchunk, hblock⟩ := h.buffer block hbuf
    rw [Option.map_some, Option.getD_some, hblock, nextSize]
    split_ifs <;> omega

/-- A piece is sent, from the cache or through the buffer. -/
lemma hasSentPiece_send {file : UnchangedFile} {s : DiskFileSender} (h : AboutToSend file s)
    (hlt : s.bytesSent < file.bytes.length) :
    HasSentPiece s (s.send header file.bytes) (piece file s.bytesSent s.nextSize) := by
  have hfile := file.size_lt
  have hpos := nextSize_pos (h.size ▸ hlt : s.bytesSent < s.fileSize)
  have hle := nextSize_le (s := s)
  rw [h.size] at hle
  have hsum : s.bytesSent + s.nextSize < sizeMod := by
    rw [sizeMod]
    omega
  have hlength := length_piece file s.bytesSent s.nextSize (by omega)
  have hsize : ¬ s.fileSize ≤ s.bytesSent := by
    rw [h.size]
    omega
  rcases h.content with hcached | hstreamed
  · -- the content is cached, and the piece begins where the last one ended
    have hdata : ((file.bytes.map some).drop s.bytesSent).take s.nextSize =
        (piece file s.bytesSent s.nextSize).map some := by
      rw [piece, List.map_take, List.map_drop]
    obtain ⟨hsame, hinside, hsends⟩ := sendContent_eq header
      (s := { s with fileBytesToSend := s.nextSize }) h.holds hsum
      (file.bytes.map some) s.bytesSent (by rw [List.length_map]; simp only; omega) hdata
    rw [← send_cached header hsize hcached] at hsame hinside hsends
    simp only [Prod.mk.injEq] at hsame
    obtain ⟨hfileSize, hmax, hcontent, hbytes, htoSend, hpending, hfinished, -, hbuf⟩ := hsame
    refine ⟨hfileSize, hmax, hcontent, hbytes, htoSend, hpending, hfinished,
      hinside.trans h.inside, ?_, ?_, hsends⟩
    · intro hnone
      rw [hcached] at hnone
      cases hnone
    · intro cells hcells
      rw [hbuf, Option.mem_def] at hcells
      simp [hcells]
  · have hstream := h.stream hstreamed
    set cells := s.contentBuf.getD (List.replicate s.nextSize none) with hcells
    have hcellsLength : cells.length = (s.contentBuf.map List.length).getD s.nextSize := by
      rw [hcells]
      cases s.contentBuf with
      | none => exact List.length_replicate
      | some block => rfl
    have hroom : s.nextSize ≤ cells.length := h.room.trans_eq hcellsLength.symm
    have hread : (file.bytes.drop (s.fileStream.getD 0)).take s.nextSize =
        piece file s.bytesSent s.nextSize := by
      rw [hstream, piece]
    have hfits : Memory.Fits cells 0 (piece file s.bytesSent s.nextSize) :=
      .inr (by omega)
    have hdata : ((Memory.write cells 0 (piece file s.bytesSent s.nextSize)).drop 0).take
        s.nextSize = (piece file s.bytesSent s.nextSize).map some := by
      have htake := Memory.take_write cells (i := 0) (w := piece file s.bytesSent s.nextSize)
        (by omega)
      rwa [hlength, Nat.zero_add, List.take_zero, List.nil_append] at htake
    obtain ⟨hsame, hinside, hsends⟩ := sendContent_eq header (s := s.readBlock file.bytes) h.holds
      hsum (Memory.write cells 0 (piece file s.bytesSent s.nextSize)) 0
      (by rw [Memory.length_write]; simp only [readBlock]; omega) hdata
    rw [← hread, ← send_streamed header hsize hstreamed (by omega)] at hsame hinside hsends
    have hpiece : (file.bytes.drop s.bytesSent).take s.nextSize =
        piece file s.bytesSent s.nextSize := rfl
    simp only [Prod.mk.injEq, readBlock, ← hcells, hstream, hpiece, hlength] at hsame hinside hsends
    obtain ⟨hfileSize, hmax, hcontent, hbytes, htoSend, hpending, hfinished, hposition, hbuf⟩ :=
      hsame
    refine ⟨hfileSize, hmax, hcontent, hbytes, htoSend, hpending, hfinished, ?_,
      fun _ => hposition, ?_, hsends⟩
    · rw [hinside, h.inside]
      simp [hfits]
    · intro block hblock
      rw [hbuf, Option.mem_def, Option.some.injEq] at hblock
      rw [← hblock, Memory.length_write, hcellsLength]

/-- The write of a piece that is not the last one: the sender sends what is behind it. -/
lemma complete_next {file : UnchangedFile} {s s' : DiskFileSender} (h : AboutToSend file s)
    (hsent : HasSentPiece s s' (piece file s.bytesSent s.nextSize))
    (hmore : s.bytesSent + s.nextSize < file.bytes.length) :
    ∃ t, AboutToSend file t ∧ t.maxChunkSize = s.maxChunkSize ∧
      t.bytesSent = s.bytesSent + s.nextSize ∧
      s'.complete header file.bytes = t.send header file.bytes := by
  have hfile := file.size_lt
  have hsum : (s'.bytesSent + s'.fileBytesToSend) % sizeMod = s.bytesSent + s.nextSize := by
    rw [hsent.bytesSent, hsent.fileBytesToSend]
    exact Nat.mod_eq_of_lt (by rw [sizeMod]; omega)
  have hpos : 0 < s.nextSize := nextSize_pos (by rw [h.size]; omega)
  have hlength := length_piece file s.bytesSent s.nextSize (by omega)
  -- a piece that is not the last one has the full size
  have hchunk : 0 < s.maxChunkSize ∧ s.nextSize = s.maxChunkSize := by
    rw [nextSize, h.size] at hmore ⊢
    split_ifs at hmore ⊢ with hlimit
    · exact ⟨hlimit.1, rfl⟩
    · omega
  have hkind : s'.sends = s.sends ++ [⟨.chunk, piece file s.bytesSent s.nextSize⟩] := by
    rw [hsent.sends, if_neg (by rw [h.size]; omega)]
  refine ⟨{ s' with
    pending := none, bytesSent := s.bytesSent + s.nextSize, writer := s'.writer.clear }, ?_,
    hsent.maxChunkSize, rfl, ?_⟩
  · exact {
      size := hsent.size.trans h.size
      holds := HTTPWriter.holds_clear _
      inside := hsent.inside
      unfinished := hsent.finished.trans h.unfinished
      le := Nat.le_of_lt hmore
      content := by
        have hcontent := h.content
        rw [← hsent.content] at hcontent
        exact hcontent
      stream := fun hnone => by
        have hstream := hsent.stream (hsent.content.symm.trans hnone)
        exact congrArg (fun x => x.getD 0) hstream
      buffer := fun cells hcells => by
        change 0 < s'.maxChunkSize ∧ cells.length = s'.maxChunkSize
        rw [hsent.maxChunkSize]
        have hcells' := hsent.buffer cells hcells
        refine ⟨hchunk.1, hcells'.trans ?_⟩
        cases hbuf : s.contentBuf with
        | none => exact hchunk.2
        | some block => exact (h.buffer block hbuf).2
      pieces := by
        simp only [hkind, List.map_append, List.map_singleton, List.flatten_append, h.pieces,
          List.flatten_singleton, piece, List.take_add]
      chunks := by
        simp only [hkind, hsent.maxChunkSize]
        intro x hx
        rcases List.mem_append.1 hx with hx | hx
        · exact h.chunks x hx
        · rw [List.mem_singleton.1 hx]
          exact ⟨rfl, hlength.trans hchunk.2⟩
      first := by
        simp only [hkind, List.append_eq_nil_iff, List.cons_ne_self, and_false, false_iff]
        omega
      more := fun _ => by
        simp only [hsent.maxChunkSize]
        exact ⟨hchunk.1, by omega, hmore⟩ }
  · rw [complete, hsent.pending]
    simp only [handleWrite]
    rw [hsum, if_neg (by rw [hsent.size, h.size]; omega)]

/-- The write of the last piece. -/
lemma hasSent_complete {file : UnchangedFile} {s s' : DiskFileSender} (h : AboutToSend file s)
    (hlt : s.bytesSent < file.bytes.length)
    (hsent : HasSentPiece s s' (piece file s.bytesSent s.nextSize))
    (hend : file.bytes.length ≤ s.bytesSent + s.nextSize) :
    HasSent (s'.complete header file.bytes) file s.maxChunkSize := by
  have hfile := file.size_lt
  have hle := nextSize_le (s := s)
  rw [h.size] at hle
  have hall : s.bytesSent + s.nextSize = file.bytes.length := by omega
  have hsum : (s'.bytesSent + s'.fileBytesToSend) % sizeMod = file.bytes.length := by
    rw [hsent.bytesSent, hsent.fileBytesToSend, hall]
    exact Nat.mod_eq_of_lt (by rw [sizeMod]; omega)
  have hlength := length_piece file s.bytesSent s.nextSize (by omega)
  have hcomplete : s'.complete header file.bytes =
      { s' with
        pending := none, bytesSent := file.bytes.length, finished := s'.finished + 1 } := by
    rw [complete, hsent.pending]
    simp only [handleWrite]
    rw [hsum, if_pos (by rw [hsent.size, h.size])]
  have hsends := hsent.sends
  rw [if_pos (by rw [h.size]; exact hend)] at hsends
  rw [hcomplete]
  refine ⟨rfl, ?_, hsent.inside, ?_, s.sends, _, hsends, h.chunks, ?_, ?_⟩
  · simp only [hsent.finished, h.unfinished]
  · simp only [hsends, List.map_append, List.map_singleton, List.flatten_append, h.pieces,
      List.flatten_singleton, piece]
    rw [← List.take_add, hall, List.take_length]
  · by_cases hzero : s.maxChunkSize = 0
    · exact .inl hzero
    · refine .inr (hlength.trans_le ?_)
      rw [nextSize, h.size]
      split_ifs <;> omega
  · by_cases hnil : s.sends = []
    · have hfirst := h.first.1 hnil
      have hfits : s.maxChunkSize = 0 ∨ file.bytes.length ≤ s.maxChunkSize := by
        rw [nextSize, h.size, hfirst] at hall
        split_ifs at hall with hlimit <;> omega
      rw [if_pos hfits, if_neg (by omega)]
      exact ⟨hnil, rfl⟩
    · obtain ⟨hpos, hmax, -⟩ := h.more hnil
      have hsome : s.bytesSent ≠ 0 := fun hzero => hnil (h.first.2 hzero)
      rw [if_neg (by omega), if_pos (by omega)]
      exact ⟨hnil, rfl⟩

/-- What is left is sent, piece by piece. -/
lemma hasSent_afterWrites {file : UnchangedFile} {s : DiskFileSender} (h : AboutToSend file s)
    (hlt : s.bytesSent < file.bytes.length) :
    ∃ n, HasSent ((complete header file.bytes)^[n] (s.send header file.bytes)) file
      s.maxChunkSize := by
  induction hleft : file.bytes.length - s.bytesSent using Nat.strong_induction_on
    generalizing s with
  | _ left ih =>
    have hsent := hasSentPiece_send header h hlt
    by_cases hmore : s.bytesSent + s.nextSize < file.bytes.length
    · obtain ⟨t, ht, hmax, hbytes, hnext⟩ := complete_next header h hsent hmore
      have hpos : 0 < s.nextSize := nextSize_pos (by rw [h.size]; omega)
      obtain ⟨n, hn⟩ := ih (file.bytes.length - t.bytesSent) (by omega) ht (by omega) rfl
      refine ⟨n + 1, ?_⟩
      rw [Function.iterate_succ_apply, hnext, ← hmax]
      exact hn
    · exact ⟨1, hasSent_complete header h hlt hsent (by omega)⟩

/-- The file is sent exactly, whether its content is cached or not, and for every size of the
chunks. -/
theorem sends_file (file : UnchangedFile) (cached : Bool) (maxChunkSize : ℕ) :
    ∃ n, HasSent (afterWrites header file cached maxChunkSize n) file maxChunkSize := by
  rcases Nat.eq_zero_or_pos file.bytes.length with hzero | hpos
  · -- an empty file is a send of nothing
    refine ⟨1, ?_⟩
    have hnil : file.bytes = [] := List.length_eq_zero_iff.1 hzero
    have hsend : (create file cached maxChunkSize).send header file.bytes =
        (create file cached maxChunkSize).sendWith header .plain .writer :=
      if_pos (Nat.le_of_eq hzero)
    rw [afterWrites, Function.iterate_one, hsend]
    exact ⟨rfl, rfl, rfl, hnil.symm, [], ⟨.plain, []⟩, rfl, by simp, .inr (Nat.zero_le _),
      by rw [if_pos (.inr (by omega))]; exact ⟨rfl, rfl⟩⟩
  · refine hasSent_afterWrites header (s := create file cached maxChunkSize) ?_ hpos
    exact {
      size := rfl
      holds := ⟨rfl, rfl, fun _ => rfl⟩
      inside := rfl
      unfinished := rfl
      le := Nat.zero_le _
      content := by
        cases cached with
        | true => exact .inl rfl
        | false => exact .inr rfl
      stream := fun _ => rfl
      buffer := fun _ hcells => by cases hcells
      pieces := rfl
      chunks := by simp [create]
      first := ⟨fun _ => rfl, fun _ => rfl⟩
      more := fun hne => absurd rfl hne }

end DiskFileSender

end PionCore.Net
