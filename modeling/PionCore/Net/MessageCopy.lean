/-
# Copies of messages

The copy constructor and the assignment of `HTTPMessage` list the members by hand, and make a
content buffer of their own.  So messages stand here with the blocks of memory that hold their
contents: a message owns the block of its buffer, and no other message has it.
-/
import PionCore.Net.MessageContent

namespace PionCore.Net

open PionCore.Lib

/-- The blocks of memory, by their addresses.  A block that is released is not used again. -/
abbrev Blocks : Type := List (List (Option Byte))

/-- A message as it stands in memory: the buffer is the address of a block, and the member
`contentBuf` of the other members is not used. -/
structure StoredMessage where
  members : HTTPMessage
  /-- `m_remote_ip` -/
  remoteIp : ℕ := 0
  /-- the object that `m_user_record` of a request points to -/
  userRecord : Option ℕ := none
  /-- `m_content_buf` -/
  buffer : Option ℕ := none
deriving DecidableEq

namespace StoredMessage

/-- The block of the buffer. -/
def block (blocks : Blocks) (m : StoredMessage) : List (Option Byte) :=
  (m.buffer.bind fun a => blocks[a]?).getD []

/-- `createContentBuffer`, in a new block; whether it writes outside of it. -/
def createContentBuffer (blocks : Blocks) (m : StoredMessage) : Blocks × StoredMessage × Bool :=
  let n := m.members.contentLength
  let cells := List.replicate ((n + 1) % sizeMod) none
  (blocks ++ [Memory.write cells n [0]], { m with buffer := some blocks.length },
    ! decide (Memory.Fits cells n [0]))

/-- The last lines of the copy constructor and of the assignment: `memcpy` of the content from the
source, into a buffer that is made for it. -/
def copyContent (blocks : Blocks) (m source : StoredMessage) : Blocks × StoredMessage × Bool :=
  match source.buffer with
  | none => (blocks, m, false)
  | some _ =>
      let (blocks', m', outside) := m.createContentBuffer blocks
      let n := m.members.contentLength
      let content := (source.block blocks).take n
      (blocks'.modify blocks.length fun cells => content ++ cells.drop content.length, m',
        outside || decide ((source.block blocks).length < n))

/-- The copy constructor, of a request or a response. -/
def copyConstruct (blocks : Blocks) (source : StoredMessage) : Blocks × StoredMessage × Bool :=
  let m := source.members
  copyContent blocks
    { members :=
        { kind := m.kind
          firstLine := m.firstLine
          isValid := m.isValid
          isChunked := m.isChunked
          chunksSupported := m.chunksSupported
          doNotSendContentLength := m.doNotSendContentLength
          versionMajor := m.versionMajor
          versionMinor := m.versionMinor
          contentLength := m.contentLength
          chunkCache := m.chunkCache
          headers := m.headers
          status := m.status
          hasMissingPackets := m.hasMissingPackets
          hasDataAfterMissing := m.hasDataAfterMissing }
      remoteIp := source.remoteIp
      userRecord := source.userRecord }
    source

/-- `operator=`, of another message. -/
def assign (blocks : Blocks) (target source : StoredMessage) : Blocks × StoredMessage × Bool :=
  let m := source.members
  copyContent blocks
    { target with
      members :=
        { target.members with
          kind := m.kind
          firstLine := m.firstLine
          isValid := m.isValid
          isChunked := m.isChunked
          chunksSupported := m.chunksSupported
          doNotSendContentLength := m.doNotSendContentLength
          versionMajor := m.versionMajor
          versionMinor := m.versionMinor
          contentLength := m.contentLength
          chunkCache := m.chunkCache
          headers := m.headers
          status := m.status
          hasMissingPackets := m.hasMissingPackets
          hasDataAfterMissing := m.hasDataAfterMissing }
      remoteIp := source.remoteIp
      userRecord := source.userRecord }
    source

/-! ### What is seen of a message -/

/-- The members apart from the cookies, and the content: no pointer, or the cells of the content. -/
def observe (blocks : Blocks) (m : StoredMessage) : HTTPMessage × ℕ × Option ℕ :=
  ({ m.members with
      cookieParams := []
      contentBuf := m.buffer.map fun _ =>
        (List.range m.members.contentLength).map fun i => ((m.block blocks)[i]?).join
      wildWrite := false }, m.remoteIp, m.userRecord)

/-- Two messages look the same. -/
def SameAs (blocks : Blocks) (m m' : StoredMessage) : Prop :=
  m.observe blocks = m'.observe blocks ∧ m.members.cookieParams.Same m'.members.cookieParams

/-- A change of a message: of any members but the buffer, of the buffer, or of the content through
the pointer to it. -/
inductive Change where
  | members (f : StoredMessage → StoredMessage)
  | createContentBuffer
  | resetContent
  | writeContent (i : ℕ) (w : Bytes)

def change (blocks : Blocks) (m : StoredMessage) : Change → Blocks × StoredMessage
  | .members f => (blocks, { f m with buffer := m.buffer })
  | .createContentBuffer =>
      let x := m.createContentBuffer blocks
      (x.1, x.2.1)
  | .resetContent => (blocks, { m with buffer := none })
  | .writeContent i w =>
      match m.buffer with
      | none => (blocks, m)
      | some a => (blocks.modify a fun cells => Memory.write cells i w, m)

/-- The memory and a message behind a list of changes. -/
def changeAll (blocks : Blocks) (m : StoredMessage) (changes : List Change) :
    Blocks × StoredMessage :=
  changes.foldl (fun x c => x.2.change x.1 c) (blocks, m)

/-- Changes of one of two messages are not seen in the other one. -/
def Independent (blocks : Blocks) (m m' : StoredMessage) : Prop :=
  ∀ changes : List Change,
    m'.observe (m.changeAll blocks changes).1 = m'.observe blocks ∧
      m.observe (m'.changeAll blocks changes).1 = m.observe blocks

/-- Two messages with buffers of their own. -/
structure Separate (blocks : Blocks) (m m' : StoredMessage) : Prop where
  left : ∀ a ∈ m.buffer, a < blocks.length
  right : ∀ a ∈ m'.buffer, a < blocks.length
  ne : ∀ a ∈ m.buffer, a ∉ m'.buffer

/-- What is meant by a copy: nothing outside of the blocks is used, the copy looks like its source,
which is not changed, and the two are independent. -/
structure IsCopy (blocks : Blocks) (source : StoredMessage)
    (x : Blocks × StoredMessage × Bool) : Prop where
  inside : x.2.2 = false
  same : SameAs x.1 x.2.1 source
  unchanged : source.observe x.1 = source.observe blocks
  independent : Independent x.1 x.2.1 source

/-- The content that a message says it has is in its buffer, if there is one. -/
def HoldsContent (blocks : Blocks) (m : StoredMessage) : Prop :=
  m.buffer ≠ none →
    m.members.contentLength ≤ (m.block blocks).length ∧ m.members.contentLength + 1 < sizeMod

/-- Two messages in memory. -/
structure TwoMessages where
  blocks : Blocks
  source : StoredMessage
  target : StoredMessage
  separate : Separate blocks source target

/-! ### Frames -/

section Frames

variable {blocks : Blocks} {m m' : StoredMessage}

/-- A message only depends on its own block. -/
lemma observe_congr {blocks' : Blocks} (h : ∀ a ∈ m.buffer, blocks'[a]? = blocks[a]?) :
    m.observe blocks' = m.observe blocks := by
  have hblock : m.block blocks' = m.block blocks := by
    rw [block, block]
    cases hbuf : m.buffer with
    | none => rfl
    | some a => rw [Option.bind_some, Option.bind_some, h a hbuf]
  rw [observe, observe, hblock]

/-- A change of one message keeps the block of the other one, and the buffers apart. -/
lemma separate_change (h : Separate blocks m m') (c : Change) :
    Separate (m.change blocks c).1 (m.change blocks c).2 m' ∧
      ∀ a ∈ m'.buffer, (m.change blocks c).1[a]? = blocks[a]? := by
  cases c with
  | members f => exact ⟨⟨h.left, h.right, h.ne⟩, fun _ _ => rfl⟩
  | createContentBuffer =>
    refine ⟨⟨fun a ha => ?_, fun a ha => ?_, fun a ha ha' => ?_⟩, fun a ha => ?_⟩
    · obtain rfl : blocks.length = a := Option.some.inj ha
      simp [change, createContentBuffer]
    · have hlt := h.right a ha
      simp only [change, createContentBuffer, List.length_append]
      omega
    · obtain rfl : blocks.length = a := Option.some.inj ha
      exact absurd (h.right _ ha') (Nat.lt_irrefl _)
    · exact List.getElem?_append_left (h.right a ha)
  | resetContent =>
    exact ⟨⟨fun a ha => (by cases ha), h.right, fun a ha => (by cases ha)⟩, fun _ _ => rfl⟩
  | writeContent i w =>
    simp only [change]
    cases hbuf : m.buffer with
    | none => exact ⟨h, fun _ _ => rfl⟩
    | some b =>
      refine ⟨⟨fun a ha => ?_, fun a ha => ?_, h.ne⟩, fun a ha => ?_⟩
      · rw [List.length_modify]
        exact h.left a ha
      · rw [List.length_modify]
        exact h.right a ha
      · have hne : b ≠ a := by
          rintro rfl
          exact h.ne b hbuf ha
        rw [List.getElem?_modify]
        simp [hne]

lemma observe_changeAll (h : Separate blocks m m') (changes : List Change) :
    m'.observe (m.changeAll blocks changes).1 = m'.observe blocks := by
  induction changes generalizing blocks m with
  | nil => rfl
  | cons c changes ih =>
    obtain ⟨hsep, hsame⟩ := separate_change h c
    exact (ih hsep).trans (observe_congr hsame)

lemma Separate.symm (h : Separate blocks m m') : Separate blocks m' m :=
  ⟨h.right, h.left, fun a ha ha' => h.ne a ha' ha⟩

/-- Messages with buffers of their own are independent. -/
lemma Separate.independent (h : Separate blocks m m') : Independent blocks m m' :=
  fun changes => ⟨observe_changeAll h changes, observe_changeAll h.symm changes⟩

end Frames

/-! ### Copies -/

section Copies

variable {blocks : Blocks} {m source : StoredMessage}

/-- The members that are seen apart from the cookies and the content. -/
def seenMembers (m : StoredMessage) : HTTPMessage × ℕ × Option ℕ :=
  ({ m.members with cookieParams := [], contentBuf := none, wildWrite := false }, m.remoteIp,
    m.userRecord)

/-- What is seen of a content: a pointer, and the cells behind it. -/
def seenContent (blocks : Blocks) (m : StoredMessage) : Option (List (Option Byte)) :=
  m.buffer.map fun _ =>
    (List.range m.members.contentLength).map fun i => ((m.block blocks)[i]?).join

lemma observe_eq :
    m.observe blocks = ({ m.seenMembers.1 with contentBuf := m.seenContent blocks },
      m.seenMembers.2) := rfl

lemma observe_eq_iff {blocks' : Blocks} (hsame : m.seenMembers = source.seenMembers) :
    m.observe blocks = source.observe blocks' ↔
      m.seenContent blocks = source.seenContent blocks' := by
  rw [observe_eq, observe_eq, hsame]
  constructor
  · intro h
    exact congrArg (fun x => x.1.contentBuf) h
  · intro h
    rw [h]

lemma contentLength_eq (hsame : m.seenMembers = source.seenMembers) :
    m.members.contentLength = source.members.contentLength :=
  congrArg (fun x => x.1.contentLength) hsame

/-- A buffer is made inside of its block unless the size wraps around. -/
lemma fits_createContentBuffer {n : ℕ} :
    Memory.Fits (List.replicate ((n + 1) % sizeMod) (none : Option Byte)) n [0] ↔
      n + 1 < sizeMod := by
  have hmod := mod_sizeMod_lt (n + 1)
  constructor
  · rintro (hnil | hle)
    · cases hnil
    · rw [List.length_replicate, List.length_singleton] at hle
      omega
  · intro hlt
    refine .inr ?_
    rw [List.length_replicate, List.length_singleton, Nat.mod_eq_of_lt hlt]

variable (blocks m source)

/-- Where the source has a buffer, its content goes to a new block. -/
lemma copyContent_some {source : StoredMessage} {a : ℕ} (hbuf : source.buffer = some a) :
    let x := m.copyContent blocks source
    x.2.1 = { m with buffer := some blocks.length } ∧
      (x.2.2 = false ↔ m.members.contentLength ≤ (source.block blocks).length ∧
        m.members.contentLength + 1 < sizeMod) ∧
      x.1.length = blocks.length + 1 ∧ (∀ b < blocks.length, x.1[b]? = blocks[b]?) ∧
      ∀ i < m.members.contentLength,
        m.members.contentLength ≤ (source.block blocks).length →
        (x.1[blocks.length]?.getD [])[i]? = (source.block blocks)[i]? := by
  simp only [copyContent, hbuf, createContentBuffer]
  refine ⟨trivial, ?_, by simp, fun b hb => ?_, fun i hi hle => ?_⟩
  · rw [Bool.or_eq_false_iff, Bool.not_eq_false', decide_eq_true_eq, fits_createContentBuffer,
      decide_eq_false_iff_not, not_lt]
    exact and_comm
  · rw [List.getElem?_modify]
    have hne : blocks.length ≠ b := by omega
    simp [hne, List.getElem?_append_left hb]
  · rw [List.getElem?_modify]
    simp only [if_true, List.getElem?_concat_length, Option.map_eq_map, Option.map_some,
      Option.getD_some]
    rw [List.getElem?_append_left (by rw [List.length_take]; omega), List.getElem?_take_of_lt hi]

/-- The content is copied, and the message is a copy if the members are equal already. -/
lemma isCopy_copyContent (h : Separate blocks m source)
    (hsame : m.seenMembers = source.seenMembers) :
    IsCopy blocks source (m.copyContent blocks source) ↔
      m.members.cookieParams.Same source.members.cookieParams ∧ HoldsContent blocks source ∧
        (source.buffer = none → m.buffer = none) := by
  cases hbuf : source.buffer with
  | none =>
    have hcopy : m.copyContent blocks source = (blocks, m, false) := by simp [copyContent, hbuf]
    have hholds : HoldsContent blocks source := fun hne => absurd hbuf hne
    rw [hcopy]
    constructor
    · intro hc
      refine ⟨hc.same.2, hholds, fun _ => ?_⟩
      have hcontent := (observe_eq_iff hsame).1 hc.same.1
      rw [seenContent, seenContent, hbuf] at hcontent
      exact Option.map_eq_none_iff.1 hcontent
    · rintro ⟨hcookies, -, hnone⟩
      refine ⟨rfl, ⟨(observe_eq_iff hsame).2 ?_, hcookies⟩, rfl, h.independent⟩
      rw [seenContent, seenContent, hbuf, hnone rfl]
      rfl
  | some a =>
    obtain ⟨hcopy, hinside, hlength, hold, hnew⟩ := copyContent_some blocks m hbuf
    have ha : a < blocks.length := h.right a hbuf
    have hblock : source.block (m.copyContent blocks source).1 = source.block blocks := by
      rw [block, block, hbuf, Option.bind_some, Option.bind_some, hold a ha]
    rw [contentLength_eq hsame] at hinside hnew
    have hunchanged : source.observe (m.copyContent blocks source).1 = source.observe blocks :=
      observe_congr fun b hb => hold b (h.right b hb)
    constructor
    · intro hc
      refine ⟨?_, fun _ => hinside.1 hc.inside, fun hnone => by cases hnone⟩
      have hcookies := hc.same.2
      rwa [hcopy] at hcookies
    · rintro ⟨hcookies, hholds, -⟩
      obtain ⟨hle, hlt⟩ := hholds (by rw [hbuf]; simp)
      refine ⟨hinside.2 ⟨hle, hlt⟩, ⟨?_, ?_⟩, hunchanged, ?_⟩
      · rw [hcopy]
        refine (observe_eq_iff (m := { m with buffer := some blocks.length }) hsame).2 ?_
        rw [seenContent, seenContent, hbuf, hblock]
        simp only [Option.map_some, contentLength_eq hsame, block, Option.bind_some]
        refine congrArg some (List.map_congr_left fun i hi => ?_)
        rw [hnew i (List.mem_range.1 hi) hle]
        rfl
      · rw [hcopy]
        exact hcookies
      · refine Separate.independent ?_
        rw [hcopy]
        refine ⟨fun b hb => ?_, fun b hb => ?_, fun b hb hb' => ?_⟩
        · obtain rfl : blocks.length = b := Option.some.inj hb
          omega
        · have := h.right b hb
          omega
        · obtain rfl : blocks.length = b := Option.some.inj hb
          exact absurd (h.right _ hb') (Nat.lt_irrefl _)

end Copies

/-- A copy is one if the source has no cookies, and an assignment if the target has the same ones
already, and no buffer where the source has none; and in both cases, if the content that the source
says it has is in its buffer. -/
theorem isCopy_iff (w : TwoMessages) :
    (IsCopy w.blocks w.source (copyConstruct w.blocks w.source) ↔
      w.source.members.cookieParams = [] ∧ HoldsContent w.blocks w.source) ∧
    (IsCopy w.blocks w.source (w.target.assign w.blocks w.source) ↔
      w.target.members.cookieParams.Same w.source.members.cookieParams ∧
        HoldsContent w.blocks w.source ∧ (w.source.buffer = none → w.target.buffer = none)) := by
  constructor
  · have hnew := isCopy_copyContent w.blocks
      ⟨{ w.source.members with contentBuf := none, cookieParams := [], wildWrite := false },
        w.source.remoteIp, w.source.userRecord, none⟩ w.source
      ⟨fun a ha => (by cases ha), w.separate.left, fun a ha => (by cases ha)⟩ rfl
    refine hnew.trans ⟨fun h => ⟨?_, h.2.1⟩, fun h => ⟨?_, h.2, fun _ => rfl⟩⟩
    · refine List.eq_nil_iff_forall_not_mem.2 fun e he => ?_
      have hmem := StringDictionary.mem_equalRange.2 ⟨he, equalIgnoreCase_self e.1⟩
      rw [← h.1 e.1] at hmem
      cases hmem
    · rw [h.1]
      exact fun _ => rfl
  · exact isCopy_copyContent _ _ _ ⟨w.separate.right, w.separate.left, fun a ha ha' =>
      w.separate.ne a ha' ha⟩ rfl

/-- A cookie is not copied. -/
theorem isCopy_not :
    ¬ IsCopy [] ⟨{ HTTPMessage.newRequest [] with cookieParams := [([97], [98])] }, 0, none, none⟩
      (copyConstruct []
        ⟨{ HTTPMessage.newRequest [] with cookieParams := [([97], [98])] }, 0, none, none⟩) := by
  intro h
  exact absurd (h.same.2 [97]) (by decide)

end StoredMessage

end PionCore.Net
