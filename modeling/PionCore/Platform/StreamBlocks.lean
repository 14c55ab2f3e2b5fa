/-
# The buffers of a stream

The codecs of JSON and XML hand a stream to their parsers buffer by buffer.  Both take the
characters out of the stream one by one, and compare them with the end of file when they have
already been cut to a `char`: the character of ones only ends a buffer, and is lost
(`handsOver_iff`).
-/
import PionCore.Platform.XMLCodec

namespace PionCore.Platform

open PionCore.Lib

/-- `XMLCodec::xmlInputReadCallback`: the buffer, and the stream behind it.  The loop is that of the
JSON codec. -/
def XMLCodec.xmlInputReadCallback (len : ℕ) (s : Bytes) : Bytes × Bytes := JSONCodec.readBlock len s

/-- A parser asks for buffers of some sizes, up to the first one that is empty: the buffers, and the
stream behind them. -/
def handOver (fetch : ℕ → Bytes → Bytes × Bytes) : List ℕ → Bytes → List Bytes × Bytes
  | [], s => ([], s)
  | n :: sizes, s =>
    if (fetch n s).1 = [] then ([], (fetch n s).2)
    else
      ((fetch n s).1 :: (handOver fetch sizes (fetch n s).2).1,
        (handOver fetch sizes (fetch n s).2).2)

/-- The buffers are the stream, up to its end or to where the parser does not ask any more. -/
def HandsOver (fetch : ℕ → Bytes → Bytes × Bytes) (sizes : List ℕ) (s : Bytes) : Prop :=
  (handOver fetch sizes s).1.flatten = s.take sizes.sum

namespace JSONCodec

variable {n : ℕ} {s : Bytes} {sizes : List ℕ}

/-- A buffer is filled, if the stream does not end. -/
lemma readBlock_filled (h : 255 ∉ s.take n) : readBlock n s = (s.take n, s.drop n) := by
  induction n generalizing s with
  | zero => rfl
  | succ n ih =>
    cases s with
    | nil => rfl
    | cons b s =>
      rw [List.take_succ_cons, List.mem_cons, not_or] at h
      rw [readBlock, if_neg (Ne.symm h.1), ih h.2]
      rfl

lemma ne_of_mem_readBlock {b : Byte} (h : b ∈ (readBlock n s).1) : b ≠ 255 := by
  induction n generalizing s with
  | zero => cases h
  | succ n ih =>
    cases s with
    | nil => cases h
    | cons c s =>
      rw [readBlock] at h
      split_ifs at h with hc
      · cases h
      · rcases List.mem_cons.1 h with rfl | h
        · exact hc
        · exact ih h

lemma ne_of_mem_handOver {b : Byte} (h : b ∈ (handOver readBlock sizes s).1.flatten) : b ≠ 255 := by
  induction sizes generalizing s with
  | nil => cases h
  | cons n sizes ih =>
    rw [handOver] at h
    split_ifs at h
    · cases h
    · rw [List.flatten_cons, List.mem_append] at h
      exact h.elim ne_of_mem_readBlock ih

/-- The stream is handed over as it is, just when the character of ones only does not come. -/
lemma handsOver_readBlock (hpos : ∀ n ∈ sizes, 0 < n) :
    HandsOver readBlock sizes s ↔ 255 ∉ s.take sizes.sum := by
  constructor
  · intro h hmem
    rw [← h] at hmem
    exact ne_of_mem_handOver hmem rfl
  · intro h
    rw [HandsOver]
    induction sizes generalizing s with
    | nil => rfl
    | cons n sizes ih =>
      rw [List.sum_cons, List.take_add, List.mem_append, not_or] at h
      obtain ⟨hn, hsizes⟩ := List.forall_mem_cons.1 hpos
      rw [handOver, readBlock_filled h.1, List.sum_cons, List.take_add]
      dsimp only
      split_ifs with hnil
      · -- an empty buffer is the end of the stream
        have hs : s = [] := (List.take_eq_nil_iff.1 hnil).resolve_left (by omega)
        simp [hs]
      · rw [List.flatten_cons, ih hsizes h.2]

variable {γ π φ δ χ θ : Type*} (y : Yajl γ π φ)

/-- The parser with the buffers that it was given. -/
def recording : Yajl γ (π × List Bytes) φ where
  genAlloc := y.genAlloc
  gen := y.gen
  alloc := (y.alloc, [])
  parse h b := (((y.parse h.1 b).1, h.2 ++ [b]), (y.parse h.1 b).2)

variable {y} {objects : List CodecField} {c : FieldCodec}

/-- A loop that does not ask for a buffer. -/
lemma exists_handOver (blocks : List Bytes) (s : Bytes) :
    ∃ m, blocks = blocks ++ (handOver readBlock (List.replicate m readBufferSize) s).1 ∧
      s = (handOver readBlock (List.replicate m readBufferSize) s).2 :=
  ⟨0, (List.append_nil _).symm, rfl⟩

/-- The loop of `read` hands over some buffers of the stream. -/
lemma fillQueue_recording {fuel : ℕ} {h : π} {blocks : List Bytes} {k : Context} {s : Bytes}
    {q : Filled × (π × List Bytes) × Context × Bytes}
    (hq : fillQueue (recording y) objects c fuel (h, blocks) k s = some q) :
    ∃ m, q.2.1.2 = blocks ++ (handOver readBlock (List.replicate m readBufferSize) s).1 ∧
      q.2.2.2 = (handOver readBlock (List.replicate m readBufferSize) s).2 := by
  induction fuel generalizing h blocks k s with
  | zero =>
    obtain rfl := Option.some.inj hq
    exact exists_handOver blocks s
  | succ fuel ih =>
    rw [fillQueue] at hq
    by_cases hqueue : k.queue ≠ []
    · rw [if_pos hqueue] at hq
      obtain rfl := Option.some.inj hq
      exact exists_handOver blocks s
    rw [if_neg hqueue] at hq
    by_cases hended : k.arrayEnded = true
    · rw [if_pos hended] at hq
      obtain rfl := Option.some.inj hq
      exact exists_handOver blocks s
    rw [if_neg hended] at hq
    by_cases hblock : (readBlock readBufferSize s).1 = []
    · rw [if_pos hblock] at hq
      obtain rfl := Option.some.inj hq
      refine ⟨1, ?_, ?_⟩
      · rw [List.replicate_one, handOver, if_pos hblock, List.append_nil]
      · rw [List.replicate_one, handOver, if_pos hblock]
    · rw [if_neg hblock] at hq
      obtain ⟨k', -, hq⟩ := Option.bind_eq_some_iff.1 hq
      split_ifs at hq with herror
      · obtain rfl := Option.some.inj hq
        refine ⟨1, ?_, ?_⟩
        · rw [List.replicate_one, handOver, if_neg hblock]
          rfl
        · rw [List.replicate_one, handOver, if_neg hblock]
          rfl
      · -- one buffer more
        obtain ⟨m, hblocks, hrest⟩ := ih hq
        refine ⟨m + 1, ?_, ?_⟩
        · rw [List.replicate_succ, handOver, if_neg hblock, hblocks]
          exact List.append_assoc _ [_] _
        · rw [List.replicate_succ, handOver, if_neg hblock, hrest]

end JSONCodec

/-- The buffers that the codecs of JSON and XML hand over are the stream as it is, just when the
character of ones only is not in the part that is asked for. -/
theorem handsOver_iff {sizes : List ℕ} (hpos : ∀ n ∈ sizes, 0 < n) (s : Bytes) :
    (HandsOver JSONCodec.readBlock sizes s ↔ 255 ∉ s.take sizes.sum) ∧
      (HandsOver XMLCodec.xmlInputReadCallback sizes s ↔ 255 ∉ s.take sizes.sum) :=
  ⟨JSONCodec.handsOver_readBlock hpos, JSONCodec.handsOver_readBlock hpos⟩

/-- Two buffers are filled, and the third one is not. -/
theorem handsOver_iff_small :
    (HandsOver JSONCodec.readBlock [4, 4, 4] (ascii "[1, 2, 3]") ↔
        255 ∉ (ascii "[1, 2, 3]").take [4, 4, 4].sum) ∧
      (HandsOver XMLCodec.xmlInputReadCallback [4, 4, 4] (ascii "[1, 2, 3]") ↔
        255 ∉ (ascii "[1, 2, 3]").take [4, 4, 4].sum) :=
  handsOver_iff (by decide) _

/-- A text in Latin-1 has a letter whose code is the one of the character of ones only. -/
theorem not_handsOver :
    ¬ HandsOver JSONCodec.readBlock [4096, 4096] [91, 34, 255, 34, 93] ∧
      ¬ HandsOver XMLCodec.xmlInputReadCallback [4096, 4096] [91, 34, 255, 34, 93] ∧
      (handOver JSONCodec.readBlock [4096, 4096] [91, 34, 255, 34, 93]).1 =
        [[91, 34], [34, 93]] := by
  have hblocks : (handOver JSONCodec.readBlock [4096, 4096] [91, 34, 255, 34, 93]).1 =
      [[91, 34], [34, 93]] := by
    decide +kernel
  refine ⟨?_, ?_, hblocks⟩
  · rw [HandsOver, hblocks]
    decide
  · show ¬ (handOver JSONCodec.readBlock [4096, 4096] [91, 34, 255, 34, 93]).1.flatten = _
    rw [hblocks]
    decide

end PionCore.Platform
