/-
# Chunked transfer

What `HTTPWriter` sends in chunks is read by the parser as the payload that was written
(`chunked_transfer`): a chunk is read at once, whatever is in it (`scan_chunk`), and the
last byte of the final chunk is the first one behind which there is a result.
-/
import PionCore.Net.GapLaw
import PionCore.Net.HTTPWriter
import PionCore.Net.ParserCalls

namespace PionCore.Net

open PionCore.Lib

/-! ### Reading a chunk -/

section Chunk

variable {maxContentLength : ℕ} {h : ChunkMachine} {cache : Bytes}

/-- The digits of a size are collected. -/
lemma scan_sizeDigits (hst : h.chunkedContentParseState = .parseChunkSize) {ds : Bytes}
    (hds : ∀ c ∈ ds, isHexDigit c = true) (rest : Bytes) :
    scan (parseChunksChar maxContentLength) (h, cache) (ds ++ rest) =
      scan (parseChunksChar maxContentLength)
        ({ h with chunkSizeStr := h.chunkSizeStr ++ ds }, cache) rest := by
  induction ds generalizing h with
  | nil => simp
  | cons c ds ih =>
    have hturn : parseChunksChar maxContentLength (h, cache) c =
        .next ({ h with chunkSizeStr := h.chunkSizeStr ++ [c] }, cache) := by
      simp only [parseChunksChar, hst, hds c List.mem_cons_self, if_true]
    rw [List.cons_append, scan_next hturn]
    refine (ih (h := { h with chunkSizeStr := h.chunkSizeStr ++ [c] }) hst
      fun d hd => hds d (List.mem_cons_of_mem c hd)).trans ?_
    simp

/-- The size that is printed in front of a chunk is read. -/
lemma scan_chunkSize (hst : h.chunkedContentParseState = .parseChunkSizeStart) {n : ℕ}
    (hn : n ≤ longMax) (rest : Bytes) :
    scan (parseChunksChar maxContentLength) (h, cache) (numeral 16 n ++ stringCRLF ++ rest) =
      scan (parseChunksChar maxContentLength) (⟨if n = 0 then .parseExpectingFinalCrAfterLastChunk
        else .parseChunk, numeral 16 n, n, 0⟩, cache) rest := by
  have hhex : ∀ c ∈ numeral 16 n, isHexDigit c = true := fun c hc => isHexDigit_of_mem_numeral hc
  have hread := readNumeral_numeral (by omega : 1 < 16) (le_refl 16) n
  obtain ⟨c, ds, hds⟩ := List.exists_cons_of_ne_nil (numeral_ne_nil 16 n)
  rw [hds] at hhex hread ⊢
  have hfirst : parseChunksChar maxContentLength (h, cache) c = .next ({ h with
      chunkSizeStr := [c], chunkedContentParseState := .parseChunkSize }, cache) := by
    simp only [parseChunksChar, hst, hhex c List.mem_cons_self, if_true]
  have hcr : ∀ str size got, parseChunksChar maxContentLength
      (⟨.parseChunkSize, str, size, got⟩, cache) 13 =
        .next (⟨.parseExpectingLfAfterChunkSize, str, size, got⟩, cache) := fun _ _ _ => rfl
  have hlf : ∀ size got, parseChunksChar maxContentLength
      (⟨.parseExpectingLfAfterChunkSize, c :: ds, size, got⟩, cache) 10 =
        .next (⟨if n = 0 then .parseExpectingFinalCrAfterLastChunk else .parseChunk, c :: ds, n, 0⟩,
          cache) := by
    intro size got
    simp only [parseChunksChar, if_true, hread, Nat.min_eq_left hn]
  rw [stringCRLF, List.append_assoc, List.cons_append, scan_next hfirst,
    scan_sizeDigits rfl fun d hd => hhex d (List.mem_cons_of_mem c hd)]
  show scan _ (_, _) (13 :: 10 :: rest) = _
  rw [scan_next (hcr _ _ _), List.singleton_append, scan_next (hlf _ _)]

/-- A chunk is read at once: its payload is put into the cache, whatever bytes it has. -/
lemma scan_chunk (hst : h.chunkedContentParseState = .parseChunkSizeStart) {payload : Bytes}
    (hsize : payload.length ≤ longMax) (hfits : cache.length + payload.length ≤ maxContentLength)
    (rest : Bytes) : ∃ h' : ChunkMachine, h'.chunkedContentParseState = .parseChunkSizeStart ∧
      scan (parseChunksChar maxContentLength) (h, cache) (HTTPWriter.chunk payload ++ rest) =
        scan (parseChunksChar maxContentLength) (h', cache ++ payload) rest := by
  rw [HTTPWriter.chunk]
  split_ifs with hnil
  · subst hnil
    exact ⟨h, hst, by simp⟩
  have hpos : 0 < payload.length := List.length_pos_of_ne_nil hnil
  refine ⟨⟨.parseChunkSizeStart, numeral 16 payload.length, payload.length, payload.length⟩, rfl, ?_⟩
  rw [List.append_assoc, List.append_assoc, scan_chunkSize hst hsize, if_neg (by omega),
    scan_append, Session.scan_chunkData rfl hpos (by simp), Scanned.resume_none rfl,
    List.take_of_length_le (by omega)]
  simp only [Nat.zero_add, if_true]
  rfl

/-- The chunks of a list of payloads put their concatenation into the cache. -/
lemma scan_flatMap_chunk (hst : h.chunkedContentParseState = .parseChunkSizeStart)
    {payloads : List Bytes} (hsize : payloads.flatten.length ≤ longMax)
    (hfits : cache.length + payloads.flatten.length ≤ maxContentLength) (rest : Bytes) :
    ∃ h' : ChunkMachine, h'.chunkedContentParseState = .parseChunkSizeStart ∧
      scan (parseChunksChar maxContentLength) (h, cache)
          (payloads.flatMap HTTPWriter.chunk ++ rest) =
        scan (parseChunksChar maxContentLength) (h', cache ++ payloads.flatten) rest := by
  induction payloads generalizing h cache with
  | nil => exact ⟨h, hst, by simp⟩
  | cons payload payloads ih =>
    rw [List.flatten_cons, List.length_append] at hsize hfits
    obtain ⟨h1, hst1, hscan1⟩ := scan_chunk hst (by omega : payload.length ≤ longMax)
      (by omega : cache.length + payload.length ≤ maxContentLength)
      (payloads.flatMap HTTPWriter.chunk ++ rest)
    obtain ⟨h2, hst2, hscan2⟩ := @ih h1 (cache ++ payload) hst1 (by omega)
      (by rw [List.length_append]; omega)
    refine ⟨h2, hst2, ?_⟩
    rw [List.flatMap_cons, List.append_assoc, hscan1, hscan2, List.flatten_cons, List.append_assoc]

/-- The last byte of the final chunk ends the chunks. -/
lemma scan_finalChunk (hst : h.chunkedContentParseState = .parseChunkSizeStart) :
    ∃ h' : ChunkMachine, scan (parseChunksChar maxContentLength) (h, cache) HTTPWriter.finalChunk =
      ⟨some .done, [], (h', cache)⟩ := by
  have hzero : HTTPWriter.finalChunk = numeral 16 0 ++ stringCRLF ++ stringCRLF := rfl
  rw [hzero, scan_chunkSize hst (Nat.zero_le _)]
  exact ⟨_, rfl⟩

end Chunk

/-! ### Reading what a writer sends -/

namespace Session

/-- The header announced a chunked body, of which nothing has been read. -/
structure AwaitsChunks (s : Session) : Prop where
  state : s.parser.messageParseState = .parseChunks
  start : s.parser.chunk.chunkedContentParseState = .parseChunkSizeStart
  cache : s.msg.chunkCache = []

/-- A body of chunks is the content of the message, and nothing of it is left. -/
lemma scan_body_chunks {s : Session} (hs : s.AwaitsChunks) {payloads : List Bytes}
    (hsize : payloads.flatten.length ≤ longMax)
    (hfits : payloads.flatten.length ≤ s.parser.maxContentLength) :
    ∃ u : Session, scan bodyTurn s
        (payloads.flatMap HTTPWriter.chunk ++ HTTPWriter.finalChunk) = ⟨some .yes, [], u⟩ ∧
      u.msg.contentCells = payloads.flatten.map some ∧ u.msg.isValid = true := by
  obtain ⟨h1, hst1, hscan1⟩ := scan_flatMap_chunk hs.start hsize
    (by simpa [hs.cache] using hfits :
      s.msg.chunkCache.length + payloads.flatten.length ≤ s.parser.maxContentLength)
    HTTPWriter.finalChunk
  obtain ⟨h2, hscan2⟩ := @scan_finalChunk s.parser.maxContentLength h1
    (s.msg.chunkCache ++ payloads.flatten) hst1
  rw [scan_chunks hs.state, hscan1, hscan2]
  refine ⟨_, rfl, ?_, ?_⟩
  · refine (conclude_yes_cells _).trans ?_
    have hcat := HTTPMessage.concatenateChunks_eq (m := (s.atChunks (h2,
      s.msg.chunkCache ++ payloads.flatten)).msg) ?_
    · refine @HTTPMessage.contentCells_eq _ _ [some 0] ?_ ?_
      · rw [hcat]
        simp [atChunks, hs.cache]
      · rw [hcat]
        simp [atChunks, hs.cache]
    · simp only [atChunks, hs.cache, List.nil_append]
      rw [longMax] at hsize
      rw [sizeMod]
      omega
  · exact congrArg HTTPMessage.isValid (conclude_yes_withoutHead _)

/-- The header of a chunked message leaves the parser waiting for the chunks. -/
def ReadsHeader (s : Session) (header : Bytes) : Prop :=
  header ≠ [] ∧ (s.read header).result = none ∧ (s.read header).state.AwaitsChunks

instance (s : Session) : Decidable s.AwaitsChunks :=
  decidable_of_iff (s.parser.messageParseState = .parseChunks ∧
    s.parser.chunk.chunkedContentParseState = .parseChunkSizeStart ∧ s.msg.chunkCache = [])
    ⟨fun h => ⟨h.1, h.2.1, h.2.2⟩, fun h => ⟨h.state, h.start, h.cache⟩⟩

instance (s : Session) (header : Bytes) : Decidable (s.ReadsHeader header) :=
  inferInstanceAs (Decidable (_ ∧ _ ∧ _))

lemma config_read (s : Session) (w : Bytes) : (s.read w).state.config = s.config :=
  (config_call (s.setReadBuffer w) .parse).trans (config_call s (.setReadBuffer w))

/-- The machine reads the header and the chunks of a message. -/
lemma scan_chunkedMessage {s : Session} (hs : s.Ready) {header : Bytes}
    (hheader : s.ReadsHeader header) {payloads : List Bytes}
    (hsize : payloads.flatten.length ≤ longMax)
    (hfits : payloads.flatten.length ≤ s.parser.maxContentLength) :
    let x := scan dataTurn s
      (header ++ (payloads.flatMap HTTPWriter.chunk ++ HTTPWriter.finalChunk))
    x.result = some .yes ∧ x.rest = [] ∧ x.state.msg.contentCells = payloads.flatten.map some ∧
      x.state.msg.isValid = true := by
  obtain ⟨hne, hnone, hawaits⟩ := hheader
  obtain ⟨hresult, -, hstate⟩ := Scanned.mk.inj (run_read hs hne)
  rw [hnone] at hresult
  have hkeep := parse_refines.keeps s header hs hne hnone
  have hready : (scan dataTurn s header).state.Ready :=
    ready_congr (congrArg parser hstate) hkeep
  have hawaits' : (scan dataTurn s header).state.AwaitsChunks := by
    refine ⟨?_, ?_, ?_⟩
    · exact (congrArg (fun t => t.parser.messageParseState) hstate).symm.trans hawaits.state
    · exact (congrArg (fun t => t.parser.chunk.chunkedContentParseState) hstate).symm.trans
        hawaits.start
    · exact (congrArg (fun t => t.msg.chunkCache) hstate).symm.trans hawaits.cache
  have hmax : (scan dataTurn s header).state.parser.maxContentLength =
      s.parser.maxContentLength :=
    (congrArg (fun t => t.parser.maxContentLength) hstate).symm.trans
      (config_max (config_read s header))
  rw [scan_append, Scanned.resume_none hresult.symm]
  generalize (scan dataTurn s header).state = t at hready hawaits' hmax
  obtain ⟨u, hu, hcells, hvalid⟩ := scan_body_chunks hawaits' hsize (hmax ▸ hfits)
  have hblind := scan_dataTurn_blind hready
    (payloads.flatMap HTTPWriter.chunk ++ HTTPWriter.finalChunk)
  rw [scan_body (Or.inl hawaits'.state) hready, hu] at hblind
  obtain ⟨hr, hrest, hst⟩ := Scanned.mk.inj hblind
  exact ⟨hr, hrest, (congrArg (fun t => t.msg.contentCells) hst).trans hcells,
    (congrArg (fun t => t.msg.isValid) hst).trans hvalid⟩

end Session

/-- What a writer sends in chunks behind a header is accepted with its last byte and not
before, and its content is the payload; the buffers it arrives in do not matter. -/
theorem chunked_transfer (isRequest : Bool) (maxContentLength : ℕ)
    (parseHeadersOnly saveRawHeaders : Bool) (m : HTTPMessage) (ec : ErrorCode) (header : Bytes)
    (groups : List (List Payload)) (last : List Payload) (pieces : List Bytes) :
    let s := newSession isRequest maxContentLength parseHeadersOnly saveRawHeaders m ec
    let payload := (groups ++ [last]).flatten.flatMap Payload.bytes
    let sent := HTTPWriter.sendGroups header {} groups last
    s.ReadsHeader header → payload.length ≤ maxContentLength → payload.length ≤ longMax →
    (∀ w ∈ pieces, w ≠ []) →
    (pieces.flatten = sent →
      (readAll s pieces).result = some .yes ∧ (readAll s pieces).rest = [] ∧
        (readAll s pieces).state.msg.contentCells = payload.map some ∧
        (readAll s pieces).state.msg.isValid = true) ∧
    (pieces.flatten <+: sent → pieces.flatten ≠ sent → (readAll s pieces).result = none) := by
  intro s payload sent hheader hfits hsize hpieces
  have hready : s.Ready := newSession_ready _ _ _ _ _ _
  have hpayload : ((groups ++ [last]).map fun group => group.flatMap Payload.bytes).flatten =
      payload := by
    simp only [payload, List.flatMap_def, List.map_flatten, List.flatten_flatten, List.map_map]
    rfl
  have hsent : sent = header ++ (((groups ++ [last]).map fun group =>
      group.flatMap Payload.bytes).flatMap HTTPWriter.chunk ++ HTTPWriter.finalChunk) := by
    have hgroup : ∀ group ∈ groups ++ [last], (group.flatMap Payload.bytes).length < sizeMod := by
      intro group hgroup
      have hle := (List.sublist_flatten_of_mem (List.mem_map_of_mem
        (f := fun group : List Payload => group.flatMap Payload.bytes) hgroup)).length_le
      rw [hpayload] at hle
      rw [longMax] at hsize
      rw [sizeMod]
      omega
    have heq := HTTPWriter.sendGroups_eq header (HTTPWriter.holds_clear {}) rfl hgroup
    rw [List.flatMap_map, ← List.append_assoc]
    exact heq
  have hone := readAll_eq hready hpieces
  have hscan := Session.scan_chunkedMessage hready hheader (by rwa [hpayload])
    (by rwa [hpayload])
  rw [← hsent, hpayload] at hscan
  constructor
  · intro hall
    rw [hall] at hone
    obtain ⟨hr, hrest, hst⟩ := Scanned.mk.inj hone
    exact ⟨hr.trans hscan.1, hrest.trans hscan.2.1,
      (congrArg (fun t => t.msg.contentCells) hst).trans hscan.2.2.1,
      (congrArg (fun t => t.msg.isValid) hst).trans hscan.2.2.2⟩
  · rintro ⟨u, hu⟩ hne
    obtain ⟨hresult, -, -⟩ := Scanned.mk.inj hone
    rw [hresult]
    refine scan_prefix_none ?_ (hu ▸ hscan.2.1)
    rintro rfl
    exact hne (by simpa using hu)

/-- Two chunks of text and binary data with line ends in them, the second one with the final
chunk; an empty group in between is not sent. -/
theorem chunked_transfer_response :
    let s := newSession false 64 false false (.newResponse requestMethodGet) .success
    let header := ascii "HTTP/1.1 200 OK\r\nTransfer-Encoding: chunked\r\n\r\n"
    let groups := [[Payload.write (ascii "0\r\n"), .writeBinary (ascii "\r\n")], []]
    let last := [Payload.writeNoCopy (ascii "end")]
    let sent := HTTPWriter.sendGroups header {} groups last
    ([sent].flatten = sent →
      (readAll s [sent]).result = some .yes ∧ (readAll s [sent]).rest = [] ∧
        (readAll s [sent]).state.msg.contentCells = (ascii "0\r\n\r\nend").map some ∧
        (readAll s [sent]).state.msg.isValid = true) ∧
    ([sent].flatten <+: sent → [sent].flatten ≠ sent → (readAll s [sent]).result = none) :=
  chunked_transfer false 64 false false (.newResponse requestMethodGet) .success
    (ascii "HTTP/1.1 200 OK\r\nTransfer-Encoding: chunked\r\n\r\n")
    [[.write (ascii "0\r\n"), .writeBinary (ascii "\r\n")], []] [.writeNoCopy (ascii "end")] _
    (by decide +kernel) (by decide +kernel) (by decide +kernel) (by decide +kernel)

end PionCore.Net
