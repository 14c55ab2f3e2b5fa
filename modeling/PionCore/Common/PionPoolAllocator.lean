/-
# The pool allocator

`PionPoolAllocator` with its lock-free cache, in the single accesses of `malloc` and `free`: the
free list pointer is copied field by field, the next pointer of a block is read or written, and the
two fields are compared and swapped at once.  The first word of a block is the next pointer while
the block is on a free list, and belongs to the caller while the block is handed out.  What
`boost::pool` and `::malloc` return comes with the step that calls them: memory that nothing else
is using.

How often a free list was swapped is counted beside the allocator, by no step of the program.
-/
import PionCore.Lib.LinkedList
import PionCore.Lib.Runs
import Mathlib.Data.List.Pairwise

namespace PionCore.Common

open PionCore.Lib

/-- `MinSize` and `MaxSize`, with the static assertions about them. -/
structure PoolSizes where
  minSize : ℕ
  maxSize : ℕ
  /-- a block holds a `FreeListNode` -/
  pos : 0 < minSize
  le : minSize ≤ maxSize
  dvd : maxSize % minSize = 0

namespace PoolSizes

variable (z : PoolSizes)

/-- `NumberOfAllocs`. -/
def numberOfAllocs : ℕ := (z.maxSize - 1) / z.minSize + 1

/-- `getPool`: the index of the pool for `n` bytes. -/
def getPool (n : ℕ) : ℕ := (n - 1) / z.minSize

/-- The size of the blocks of a pool. -/
def poolSize (k : ℕ) : ℕ := (k + 1) * z.minSize

/-- The size of the block that is allocated for `n` bytes. -/
def blockSize (n : ℕ) : ℕ := if z.maxSize < n then n else z.poolSize (z.getPool n)

variable {z} {n : ℕ}

lemma getPool_lt (hn : n ≤ z.maxSize) : z.getPool n < z.numberOfAllocs :=
  Nat.lt_succ_of_le (Nat.div_le_div_right (Nat.sub_le_sub_right hn 1))

/-- A block is as large as its caller asks for. -/
lemma le_blockSize : n ≤ z.blockSize n := by
  unfold blockSize poolSize getPool
  split_ifs with hn
  · exact Nat.le_refl n
  · have hdiv := Nat.div_add_mod (n - 1) z.minSize
    have hmod := Nat.mod_lt (n - 1) z.pos
    rw [Nat.add_mul, Nat.one_mul, Nat.mul_comm]
    omega

lemma poolSize_pos (k : ℕ) : 0 < z.poolSize k := Nat.mul_pos k.succ_pos z.pos

lemma blockSize_pos (hn : 0 < n) : 0 < z.blockSize n := Nat.lt_of_lt_of_le hn le_blockSize

lemma blockSize_of_le (hn : n ≤ z.maxSize) : z.blockSize n = z.poolSize (z.getPool n) :=
  if_neg (by omega)

lemma poolSize_inj {k k' : ℕ} (h : z.poolSize k = z.poolSize k') : k = k' :=
  Nat.succ.inj (Nat.eq_of_mul_eq_mul_right z.pos h)

end PoolSizes

/-- The pools of `EventAllocator`. -/
def eventAllocator : PoolSizes := ⟨16, 256, by decide, by decide, by decide⟩

/-- `tagged_ptr`: a pointer, and a tag that every swap counts on. -/
structure TaggedPtr where
  ptr : Option ℕ := none
  tag : ℕ := 0
  deriving DecidableEq

/-- Where a thread is in `malloc` or `free`.  The tag of a copy comes with the number `seen` of the
swaps of this pool in front of it. -/
inductive AllocThread where
  | idle
  /-- `malloc`, in front of copying the pointer of the free list -/
  | mallocStart (n : ℕ)
  /-- the pointer is copied, and the tag is not -/
  | mallocCopied (n : ℕ) (ptr : Option ℕ)
  | mallocRead (n : ℕ) (oldFree : TaggedPtr) (seen : ℕ)
  /-- in front of `cas` -/
  | mallocSwap (n : ℕ) (oldFree : TaggedPtr) (next : Option ℕ) (seen : ℕ)
  /-- the free list is empty, or the block is larger than `MaxSize` -/
  | mallocPool (n : ℕ)
  | freeStart (a n : ℕ)
  | freeCopied (a n : ℕ) (ptr : Option ℕ)
  /-- in front of writing the next pointer of the block -/
  | freeWrite (a n : ℕ) (oldFree : TaggedPtr)
  | freeSwap (a n : ℕ) (oldFree : TaggedPtr)

namespace AllocThread

/-- The block that is being released. -/
def freeing : AllocThread → Option (ℕ × ℕ)
  | freeStart a n | freeCopied a n _ | freeWrite a n _ | freeSwap a n _ => some (a, n)
  | idle | mallocStart _ | mallocCopied _ _ | mallocRead _ _ _ | mallocSwap _ _ _ _
  | mallocPool _ => none

end AllocThread

structure PoolAllocator (ι : Type*) where
  /-- `m_free_ptr` of each pool -/
  freePtr : ℕ → TaggedPtr := fun _ => {}
  /-- the first word of each block -/
  next : ℕ → Option ℕ := fun _ => none
  threads : ι → AllocThread := fun _ => .idle
  /-- the memory that the pools and `::malloc` have returned: addresses and sizes -/
  chunks : List (ℕ × ℕ) := []
  /-- the blocks that callers have, with the sizes they asked for -/
  held : ℕ → Option ℕ := fun _ => none
  swaps : ℕ → ℕ := fun _ => 0

inductive AllocStep (ι : Type*) where
  | malloc (c : ι) (n : ℕ)
  /-- of a block that was allocated for `n` bytes -/
  | free (c : ι) (a n : ℕ)
  /-- the next access of the thread -/
  | go (c : ι)
  /-- `m_pool.malloc()` or `::malloc` returns an address -/
  | chunk (c : ι) (a : ℕ)
  /-- or there is no memory left -/
  | noMemory (c : ι)
  /-- a caller writes to the first word of its block -/
  | write (a : ℕ) (v : Option ℕ)

/-- Two ranges of addresses do not overlap. -/
def Apart (r r' : ℕ × ℕ) : Prop := r.1 + r.2 ≤ r'.1 ∨ r'.1 + r'.2 ≤ r.1

instance (r r' : ℕ × ℕ) : Decidable (Apart r r') := inferInstanceAs (Decidable (_ ∨ _))

instance : Std.Symm Apart := ⟨fun _ _ => Or.symm⟩

namespace PoolAllocator

variable {ι : Type*}

section
variable [DecidableEq ι]

def goesOn (s : PoolAllocator ι) (c : ι) (t : AllocThread) : PoolAllocator ι :=
  { s with threads := Function.update s.threads c t }

/-- `tagged_ptr::cas` of the free list pointer has found what was expected, among `tags` tags. -/
def swap (tags : ℕ) (s : PoolAllocator ι) (k : ℕ) (oldFree : TaggedPtr) (new : Option ℕ) :
    PoolAllocator ι :=
  { s with
    freePtr := Function.update s.freePtr k { ptr := new, tag := (oldFree.tag + 1) % tags }
    swaps := Function.update s.swaps k (s.swaps k + 1) }

/-- The caller gets the block. -/
def returns (s : PoolAllocator ι) (c : ι) (a n : ℕ) : PoolAllocator ι :=
  { s with held := Function.update s.held a (some n) }.goesOn c .idle

/-- The next access of a thread. -/
def go (z : PoolSizes) (tags : ℕ) (s : PoolAllocator ι) (c : ι) : Option (PoolAllocator ι) :=
  match s.threads c with
  | .idle | .mallocPool _ => none
  | .mallocStart n =>
      some (s.goesOn c (.mallocCopied n (s.freePtr (z.getPool n)).ptr))
  | .mallocCopied n p =>
      let k := z.getPool n
      some (s.goesOn c (.mallocRead n ⟨p, (s.freePtr k).tag⟩ (s.swaps k)))
  | .mallocRead n oldFree seen =>
      match oldFree.ptr with
      | none => some (s.goesOn c (.mallocPool n))
      | some a => some (s.goesOn c (.mallocSwap n oldFree (s.next a) seen))
  | .mallocSwap n oldFree next _ =>
      match oldFree.ptr with
      | none => none
      | some a =>
        if s.freePtr (z.getPool n) = oldFree then
          some (s.swap tags (z.getPool n) oldFree next |>.returns c a n)
        else
          some (s.goesOn c (.mallocStart n))
  | .freeStart a n =>
      some (s.goesOn c (.freeCopied a n (s.freePtr (z.getPool n)).ptr))
  | .freeCopied a n p =>
      some (s.goesOn c (.freeWrite a n ⟨p, (s.freePtr (z.getPool n)).tag⟩))
  | .freeWrite a n oldFree =>
      some ({ s with next := Function.update s.next a oldFree.ptr }.goesOn c
        (.freeSwap a n oldFree))
  | .freeSwap a n oldFree =>
      if s.freePtr (z.getPool n) = oldFree then
        some (s.swap tags (z.getPool n) oldFree (some a) |>.goesOn c .idle)
      else
        some (s.goesOn c (.freeStart a n))

def step (z : PoolSizes) (tags : ℕ) (s : PoolAllocator ι) :
    AllocStep ι → Option (PoolAllocator ι)
  | .malloc c n =>
      match s.threads c with
      | .idle =>
        if n = 0 then none
        else if z.maxSize < n then some (s.goesOn c (.mallocPool n))
        else some (s.goesOn c (.mallocStart n))
      | _ => none
  | .free c a n =>
      match s.threads c with
      | .idle =>
        if s.held a = some n then
          let t := { s with held := Function.update s.held a none }
          if z.maxSize < n then some { t with chunks := t.chunks.erase (a, n) }
          else some (t.goesOn c (.freeStart a n))
        else none
      | _ => none
  | .go c => s.go z tags c
  | .chunk c a =>
      match s.threads c with
      | .mallocPool n =>
        if s.chunks.all fun r => decide (Apart (a, z.blockSize n) r) then
          some ({ s with chunks := (a, z.blockSize n) :: s.chunks }.returns c a n)
        else none
      | _ => none
  | .noMemory c =>
      match s.threads c with
      | .mallocPool _ => some (s.goesOn c .idle)
      | _ => none
  | .write a v =>
      if s.held a = none then none else some { s with next := Function.update s.next a v }

end

/-- The block that a step hands out. -/
def handsOut (z : PoolSizes) (s : PoolAllocator ι) : AllocStep ι → Option ℕ
  | .go c =>
    match s.threads c with
    | .mallocSwap n oldFree _ _ =>
      if s.freePtr (z.getPool n) = oldFree then oldFree.ptr else none
    | _ => none
  | .chunk _ a => some a
  | .malloc _ _ | .free _ _ _ | .noMemory _ | .write _ _ => none

/-- When a thread swaps, fewer swaps of the free list than there are tags lie behind its copy of the
tag. -/
def InTime (z : PoolSizes) (tags : ℕ) (e : AllocStep ι) (s : PoolAllocator ι) : Bool :=
  match e with
  | .go c =>
    match s.threads c with
    | .mallocSwap n _ _ seen => decide (s.swaps (z.getPool n) - seen < tags)
    | _ => true
  | _ => true

/-! ### Where the blocks are -/

/-- Where a block is. -/
inductive Place (ι : Type*) where
  | nowhere
  | listed (k : ℕ)
  | held (n : ℕ)
  | freed (c : ι) (n : ℕ)

/-- The size of a block at a place. -/
def Place.size (z : PoolSizes) : Place ι → Option ℕ
  | .nowhere => none
  | .listed k => some (z.poolSize k)
  | .held n | .freed _ n => some (z.blockSize n)

/-- What a thread knows. -/
def Knows (z : PoolSizes) (tags : ℕ) (s : PoolAllocator ι) : AllocThread → Prop
  | .idle => True
  | .mallocStart n | .mallocCopied n _ => 0 < n ∧ n ≤ z.maxSize
  | .mallocRead n oldFree seen =>
      (0 < n ∧ n ≤ z.maxSize) ∧ seen ≤ s.swaps (z.getPool n) ∧ oldFree.tag = seen % tags
  | .mallocSwap n oldFree next seen =>
      (0 < n ∧ n ≤ z.maxSize) ∧ seen ≤ s.swaps (z.getPool n) ∧ oldFree.tag = seen % tags ∧
        (seen = s.swaps (z.getPool n) → (s.freePtr (z.getPool n)).ptr = oldFree.ptr →
          ∀ a, oldFree.ptr = some a → s.next a = next)
  | .mallocPool n => 0 < n
  | .freeStart _ n | .freeCopied _ n _ | .freeWrite _ n _ => 0 < n ∧ n ≤ z.maxSize
  | .freeSwap a n oldFree => (0 < n ∧ n ≤ z.maxSize) ∧ s.next a = oldFree.ptr

/-- The free lists are `l`, and the blocks are at the places `p`. -/
structure Holds (z : PoolSizes) (tags : ℕ) (s : PoolAllocator ι) (l : ℕ → List ℕ)
    (p : ℕ → Place ι) : Prop where
  linked : ∀ k, Linked s.next (s.freePtr k).ptr (l k)
  tag : ∀ k, (s.freePtr k).tag = s.swaps k % tags
  listed : ∀ k a, a ∈ l k ↔ p a = .listed k
  held : ∀ a n, s.held a = some n ↔ p a = .held n
  freed : ∀ c a n, (s.threads c).freeing = some (a, n) ↔ p a = .freed c n
  chunks : ∀ a m, (a, m) ∈ s.chunks ↔ (p a).size z = some m
  apart : s.chunks.Pairwise Apart
  pos : ∀ a n, s.held a = some n → 0 < n
  knows : ∀ c, s.Knows z tags (s.threads c)

variable {z : PoolSizes} {tags : ℕ} {s s' : PoolAllocator ι} {l : ℕ → List ℕ} {p : ℕ → Place ι}
  {c : ι} {t : AllocThread} {a n : ℕ} {v : Option ℕ}

/-- What a thread knows is about the words of memory and the free list pointers. -/
lemma Knows.congr (h : s.Knows z tags t) (hnext : s'.next = s.next)
    (hfree : s'.freePtr = s.freePtr) (hswaps : s'.swaps = s.swaps) : s'.Knows z tags t := by
  cases t with
  | mallocRead | mallocSwap | freeSwap =>
    simp only [Knows, hnext, hfree, hswaps]
    exact h
  | idle | mallocStart | mallocCopied | mallocPool | freeStart | freeCopied | freeWrite => exact h

/-- Another block is written to. -/
lemma Knows.write (h : s.Knows z tags t) (hhead : ∀ k, (s.freePtr k).ptr ≠ some a)
    (hother : ∀ n, t.freeing ≠ some (a, n)) :
    Knows z tags { s with next := Function.update s.next a v } t := by
  cases t with
  | mallocSwap n oldFree next seen =>
    obtain ⟨hn, hseen, htag, hnext⟩ := h
    refine ⟨hn, hseen, htag, fun hs hptr b hb => ?_⟩
    have hne : b ≠ a := by
      rintro rfl
      exact hhead _ (hptr.trans hb)
    show Function.update s.next a v b = next
    rw [Function.update_of_ne hne]
    exact hnext hs hptr b hb
  | freeSwap b n oldFree =>
    obtain ⟨hn, hnext⟩ := h
    have hne : b ≠ a := by
      rintro rfl
      exact hother n rfl
    refine ⟨hn, ?_⟩
    show Function.update s.next a v b = oldFree.ptr
    rw [Function.update_of_ne hne]
    exact hnext
  | idle | mallocStart | mallocCopied | mallocRead | mallocPool | freeStart | freeCopied
  | freeWrite => exact h

/-- One block comes to another place. -/
lemma place_iff {P Q : ℕ → Prop} {F : Place ι → Prop} {q : Place ι} (h : ∀ b, P b ↔ F (p b))
    (hne : ∀ b, b ≠ a → (Q b ↔ P b)) (ha : Q a ↔ F q) (b : ℕ) :
    Q b ↔ F (Function.update p a q b) := by
  by_cases hb : b = a
  · subst hb
    rw [Function.update_self]
    exact ha
  · rw [Function.update_of_ne hb, hne b hb]
    exact h b

/-- The first block of a free list. -/
lemma Holds.head (h : s.Holds z tags l p) (k : ℕ) (ha : (s.freePtr k).ptr = some a) :
    ∃ l', l k = a :: l' := by
  have hl := h.linked k
  rw [ha] at hl
  cases hk : l k with
  | nil =>
    rw [hk] at hl
    cases hl
  | cons b l' =>
    rw [hk] at hl
    obtain ⟨hab, -⟩ := hl
    cases hab
    exact ⟨l', rfl⟩

lemma Holds.ne_head (h : s.Holds z tags l p) (hp : ∀ k, p a ≠ .listed k) (k : ℕ) :
    (s.freePtr k).ptr ≠ some a := by
  intro ha
  obtain ⟨l', hl'⟩ := h.head k ha
  exact hp k ((h.listed k a).1 (by rw [hl']; exact List.mem_cons_self))

/-- A block has a size, since somebody asked for some bytes. -/
lemma Holds.size_pos (h : s.Holds z tags l p) {m : ℕ} (hm : (p a).size z = some m) : 0 < m := by
  cases hp : p a with
  | nowhere =>
    rw [hp] at hm
    cases hm
  | listed k =>
    rw [hp] at hm
    cases hm
    exact PoolSizes.poolSize_pos k
  | held n =>
    rw [hp] at hm
    cases hm
    exact PoolSizes.blockSize_pos (h.pos a n ((h.held a n).2 hp))
  | freed c n =>
    rw [hp] at hm
    cases hm
    have hc := (h.freed c a n).2 hp
    have hk := h.knows c
    refine PoolSizes.blockSize_pos ?_
    cases ht : s.threads c <;> rw [ht] at hc hk <;> cases hc
    · exact hk.1
    · exact hk.1
    · exact hk.1
    · exact hk.1.1

/-- Somebody writes to a block that is on no free list, and that no other thread is releasing. -/
lemma Holds.write (h : s.Holds z tags l p) (hp : ∀ k, p a ≠ .listed k)
    (hother : ∀ d, Knows z tags { s with next := Function.update s.next a v } (s.threads d)) :
    Holds z tags { s with next := Function.update s.next a v } l p where
  linked k := by
    refine linked_congr (h.linked k) fun b hb => Function.update_of_ne ?_ ..
    rintro rfl
    exact hp k ((h.listed k b).1 hb)
  tag := h.tag
  listed := h.listed
  held := h.held
  freed := h.freed
  chunks := h.chunks
  apart := h.apart
  pos := h.pos
  knows := hother

lemma Holds.chunks_nodup (h : s.Holds z tags l p) : s.chunks.Nodup := by
  refine h.apart.imp_of_mem fun {r r'} hr _ hapart => ?_
  rintro rfl
  have hpos := h.size_pos ((h.chunks r.1 r.2).1 hr)
  unfold Apart at hapart
  omega

/-- Memory that nothing else is using is not a block yet. -/
lemma Holds.nowhere (h : s.Holds z tags l p) (hpos : 0 < n)
    (hnew : ∀ r ∈ s.chunks, Apart (a, z.blockSize n) r) : p a = .nowhere := by
  have hsize : ∀ m, (p a).size z ≠ some m := by
    intro m hm
    have hapart := hnew _ ((h.chunks a m).2 hm)
    have hm' := h.size_pos hm
    have hn := PoolSizes.blockSize_pos (z := z) hpos
    unfold Apart at hapart
    omega
  cases hp : p a with
  | nowhere => rfl
  | listed k => exact absurd (by rw [hp]; rfl) (hsize (z.poolSize k))
  | held m => exact absurd (by rw [hp]; rfl) (hsize (z.blockSize m))
  | freed d m => exact absurd (by rw [hp]; rfl) (hsize (z.blockSize m))

variable [DecidableEq ι]

@[simp] lemma goesOn_threads_self : (s.goesOn c t).threads c = t := Function.update_self ..

lemma goesOn_threads_of_ne {d : ι} (hd : d ≠ c) : (s.goesOn c t).threads d = s.threads d :=
  Function.update_of_ne hd ..

omit [DecidableEq ι] in
/-- Behind a swap nobody's copy is the newest one. -/
lemma Knows.swap (h : s.Knows z tags t) (k : ℕ) (oldFree : TaggedPtr) (new : Option ℕ) :
    (s.swap tags k oldFree new).Knows z tags t := by
  have hmono (k' : ℕ) : s.swaps k' ≤ (s.swap tags k oldFree new).swaps k' := by
    by_cases hk : k' = k
    · subst hk
      simp [PoolAllocator.swap]
    · simp [PoolAllocator.swap, hk]
  cases t with
  | mallocRead n oldFree' seen => exact ⟨h.1, Nat.le_trans h.2.1 (hmono _), h.2.2⟩
  | mallocSwap n oldFree' next seen =>
    obtain ⟨hn, hseen, htag, hnext⟩ := h
    refine ⟨hn, Nat.le_trans hseen (hmono _), htag, fun hs hptr b hb => ?_⟩
    by_cases hk : z.getPool n = k
    · subst hk
      simp only [PoolAllocator.swap, Function.update_self] at hs
      omega
    · simp only [PoolAllocator.swap, Function.update_of_ne hk] at hs hptr
      exact hnext hs hptr b hb
  | idle | mallocStart | mallocCopied | mallocPool | freeStart | freeCopied | freeWrite
  | freeSwap => exact h

/-- A thread goes on, and has the same block to release. -/
lemma Holds.goesOn (h : s.Holds z tags l p) (ht : t.freeing = (s.threads c).freeing)
    (hknows : s.Knows z tags t) :
    (s.goesOn c t).Holds z tags l p where
  linked := h.linked
  tag := h.tag
  listed := h.listed
  held := h.held
  freed d b m := by
    rw [← h.freed d b m]
    by_cases hd : d = c
    · subst hd
      rw [goesOn_threads_self, ht]
    · rw [goesOn_threads_of_ne hd]
  chunks := h.chunks
  apart := h.apart
  pos := h.pos
  knows d := by
    refine Knows.congr (s := s) ?_ rfl rfl rfl
    by_cases hd : d = c
    · subst hd
      rw [goesOn_threads_self]
      exact hknows
    · rw [goesOn_threads_of_ne hd]
      exact h.knows d

/-- The thread `c` moves the block `a` to the place `q`. -/
lemma Holds.moves (h : s.Holds z tags l p) {l' : ℕ → List ℕ} {q : Place ι}
    (hlinked : ∀ k, Linked s'.next (s'.freePtr k).ptr (l' k))
    (htag : ∀ k, (s'.freePtr k).tag = s'.swaps k % tags)
    (hlisted : ∀ k, (∀ b, b ≠ a → (b ∈ l' k ↔ b ∈ l k)) ∧ (a ∈ l' k ↔ q = .listed k))
    (hheld : ∃ v, s'.held = Function.update s.held a v ∧ ∀ m, v = some m ↔ q = .held m)
    (hthreads : ∃ t, s'.threads = Function.update s.threads c t ∧
      (∀ b m, b ≠ a → (t.freeing = some (b, m) ↔ (s.threads c).freeing = some (b, m))) ∧
      ∀ m, t.freeing = some (a, m) ↔ q = .freed c m)
    (hother : ∀ d m, d ≠ c → p a ≠ .freed d m ∧ q ≠ .freed d m)
    (hchunks : ∀ m, (∀ b, b ≠ a → ((b, m) ∈ s'.chunks ↔ (b, m) ∈ s.chunks)) ∧
      ((a, m) ∈ s'.chunks ↔ q.size z = some m))
    (hapart : s'.chunks.Pairwise Apart) (hpos : ∀ m, q = .held m → 0 < m)
    (hknows : s'.Knows z tags (s'.threads c) ∧ ∀ d, d ≠ c → s'.Knows z tags (s.threads d)) :
    s'.Holds z tags l' (Function.update p a q) := by
  obtain ⟨v, hheld, hv⟩ := hheld
  obtain ⟨t, hthreads, ht, hta⟩ := hthreads
  have hheld' (b m : ℕ) : s'.held b = some m ↔ Function.update p a q b = .held m := by
    refine place_iff (Q := fun b => s'.held b = some m) (F := fun x => x = .held m)
      (fun b => h.held b m) (fun b hb => ?_) ?_ b
    · simp only [hheld, Function.update_of_ne hb]
    · simp only [hheld, Function.update_self]
      exact hv m
  refine ⟨hlinked, htag, fun k => ?_, hheld', fun d b m => ?_, fun b m => ?_, hapart,
    fun b m hb => ?_, fun d => ?_⟩
  · exact place_iff (F := fun x => x = .listed k) (h.listed k) (hlisted k).1 (hlisted k).2
  · refine place_iff (P := fun b => (s.threads d).freeing = some (b, m))
      (Q := fun b => (s'.threads d).freeing = some (b, m)) (F := fun x => x = .freed d m)
      (fun b => h.freed d b m) (fun b hb => ?_) ?_ b
    · by_cases hd : d = c
      · subst hd
        simp only [hthreads, Function.update_self]
        exact ht b m hb
      · simp only [hthreads, Function.update_of_ne hd]
    · by_cases hd : d = c
      · subst hd
        simp only [hthreads, Function.update_self]
        exact hta m
      · simp only [hthreads, Function.update_of_ne hd]
        rw [h.freed]
        exact iff_of_false (hother d m hd).1 (hother d m hd).2
  · exact place_iff (P := fun b => (b, m) ∈ s.chunks) (Q := fun b => (b, m) ∈ s'.chunks)
      (F := fun x => x.size z = some m) (fun b => h.chunks b m) (hchunks m).1 (hchunks m).2 b
  · have hplace := (hheld' b m).1 hb
    by_cases hba : b = a
    · subst hba
      rw [Function.update_self] at hplace
      exact hpos m hplace
    · rw [Function.update_of_ne hba] at hplace
      exact h.pos b m ((h.held b m).2 hplace)
  · by_cases hd : d = c
    · subst hd
      exact hknows.1
    · rw [hthreads, Function.update_of_ne hd]
      exact hknows.2 d hd

omit [DecidableEq ι] in
/-- A swap changes one free list, and its tag as often as it is swapped. -/
lemma Holds.swap_lists (h : s.Holds z tags l p) {k : ℕ} {l' : List ℕ} {new : Option ℕ}
    (hlist : Linked s.next new l') :
    (∀ k', Linked s.next ((s.swap tags k (s.freePtr k) new).freePtr k').ptr
      (Function.update l k l' k')) ∧
    ∀ k', ((s.swap tags k (s.freePtr k) new).freePtr k').tag =
      (s.swap tags k (s.freePtr k) new).swaps k' % tags := by
  refine ⟨fun k' => ?_, fun k' => ?_⟩
  · by_cases hk : k' = k
    · subst hk
      simp only [PoolAllocator.swap, Function.update_self]
      exact hlist
    · simp only [PoolAllocator.swap, Function.update_of_ne hk]
      exact h.linked k'
  · by_cases hk : k' = k
    · subst hk
      simp only [PoolAllocator.swap, Function.update_self]
      rw [h.tag, Nat.mod_add_mod]
    · simp only [PoolAllocator.swap, Function.update_of_ne hk]
      exact h.tag k'

/-- The first block of a free list is handed out. -/
lemma Holds.pop (h : s.Holds z tags l p) {oldFree : TaggedPtr} {next : Option ℕ} {seen : ℕ}
    (hc : s.threads c = .mallocSwap n oldFree next seen) (ha : oldFree.ptr = some a)
    (hold : s.freePtr (z.getPool n) = oldFree) (htime : s.swaps (z.getPool n) - seen < tags) :
    ∃ l' p', (s.swap tags (z.getPool n) oldFree next |>.returns c a n).Holds z tags l' p' := by
  have hknows := h.knows c
  rw [hc] at hknows
  obtain ⟨⟨hpos, hmax⟩, hseen, htag, hnext⟩ := hknows
  -- the tag is as it was, so the list was not swapped since then
  have hsame : seen = s.swaps (z.getPool n) := by
    have hmod := h.tag (z.getPool n)
    rw [hold, htag] at hmod
    have hdiff : (s.swaps (z.getPool n) - seen) % tags = 0 :=
      Nat.sub_mod_eq_zero_of_mod_eq hmod.symm
    rw [Nat.mod_eq_of_lt htime] at hdiff
    omega
  have hptr : (s.freePtr (z.getPool n)).ptr = oldFree.ptr := congrArg TaggedPtr.ptr hold
  obtain ⟨l', hl'⟩ := h.head _ (hptr.trans ha)
  have hplace : p a = .listed (z.getPool n) :=
    (h.listed _ a).1 (by rw [hl']; exact List.mem_cons_self)
  have hlist := h.linked (z.getPool n)
  have hnodup := linked_nodup hlist
  rw [hl'] at hlist hnodup
  -- nobody has written to a block of the list, so its next pointer is still what was read
  have hrest : Linked s.next next l' := by
    rw [← hnext hsame hptr a ha]
    exact hlist.2
  subst hold
  obtain ⟨hlinked, htags⟩ := h.swap_lists (k := z.getPool n) hrest
  refine ⟨Function.update l (z.getPool n) l', Function.update p a (.held n),
    h.moves (c := c) hlinked htags (fun k => ?_) ⟨some n, rfl, fun m => by simp⟩
      ⟨.idle, rfl, fun b m _ => ?_, fun m => ?_⟩ (fun d m _ => ?_)
      (fun m => ⟨fun _ _ => Iff.rfl, ?_⟩) h.apart (fun m hm => ?_) ⟨?_, fun d _ => ?_⟩⟩
  · by_cases hk : k = z.getPool n
    · subst hk
      rw [Function.update_self, hl']
      refine ⟨fun b hb => ?_, iff_of_false (List.nodup_cons.1 hnodup).1 (by simp)⟩
      rw [List.mem_cons, or_iff_right hb]
    · rw [Function.update_of_ne hk, h.listed, hplace]
      refine ⟨fun _ _ => Iff.rfl, iff_of_false ?_ (by simp)⟩
      rintro ⟨⟩
      exact hk rfl
  · rw [hc]
    rfl
  · simp [AllocThread.freeing]
  · rw [hplace]
    simp
  · show (a, m) ∈ s.chunks ↔ some (z.blockSize n) = some m
    rw [h.chunks, hplace, PoolSizes.blockSize_of_le hmax]
    rfl
  · cases hm
    exact hpos
  · simp only [returns, goesOn_threads_self]
    trivial
  · exact ((h.knows d).swap (z.getPool n) _ next).congr rfl rfl rfl

/-- A released block comes to the front of its free list. -/
lemma Holds.push (h : s.Holds z tags l p)
    (hc : s.threads c = .freeSwap a n (s.freePtr (z.getPool n))) :
    ∃ l' p', (s.swap tags (z.getPool n) (s.freePtr (z.getPool n)) (some a) |>.goesOn c
      .idle).Holds z tags l' p' := by
  have hknows := h.knows c
  rw [hc] at hknows
  obtain ⟨⟨hpos, hmax⟩, hnext⟩ := hknows
  have hplace : p a = .freed c n := (h.freed c a n).1 (by rw [hc]; rfl)
  have hlist : Linked s.next (some a) (a :: l (z.getPool n)) := by
    rw [linked_cons, hnext]
    exact h.linked _
  obtain ⟨hlinked, htags⟩ := h.swap_lists (k := z.getPool n) hlist
  refine ⟨Function.update l (z.getPool n) (a :: l (z.getPool n)),
    Function.update p a (.listed (z.getPool n)),
    h.moves (c := c) hlinked htags (fun k => ?_) ⟨none, ?_, fun m => by simp⟩
      ⟨.idle, rfl, fun b m hb => ?_, fun m => ?_⟩ (fun d m hd => ?_)
      (fun m => ⟨fun _ _ => Iff.rfl, ?_⟩) h.apart (fun m hm => ?_) ⟨?_, fun d _ => ?_⟩⟩
  · by_cases hk : k = z.getPool n
    · subst hk
      rw [Function.update_self]
      refine ⟨fun b hb => ?_, iff_of_true List.mem_cons_self rfl⟩
      rw [List.mem_cons, or_iff_right hb]
    · rw [Function.update_of_ne hk, h.listed, hplace]
      refine ⟨fun _ _ => Iff.rfl, iff_of_false (by simp) ?_⟩
      rintro ⟨⟩
      exact hk rfl
  · have hnone : s.held a = none := by
      refine Option.eq_none_iff_forall_ne_some.2 fun m hm => ?_
      rw [h.held, hplace] at hm
      cases hm
    rw [← hnone, Function.update_eq_self]
    rfl
  · rw [hc]
    refine iff_of_false (by simp [AllocThread.freeing]) ?_
    rintro ⟨⟩
    exact hb rfl
  · simp [AllocThread.freeing]
  · rw [hplace]
    refine ⟨?_, by simp⟩
    rintro ⟨⟩
    exact hd rfl
  · show (a, m) ∈ s.chunks ↔ some (z.poolSize (z.getPool n)) = some m
    rw [h.chunks, hplace, ← PoolSizes.blockSize_of_le hmax]
    rfl
  · cases hm
  · rw [goesOn_threads_self]
    trivial
  · exact ((h.knows d).swap (z.getPool n) _ (some a)).congr rfl rfl rfl

/-- A caller starts to release a block of a pool. -/
lemma Holds.release (h : s.Holds z tags l p) (hc : s.threads c = .idle)
    (ha : s.held a = some n) (hmax : n ≤ z.maxSize) :
    ({ s with held := Function.update s.held a none }.goesOn c (.freeStart a n)).Holds z tags l
      (Function.update p a (.freed c n)) := by
  have hplace := (h.held a n).1 ha
  refine h.moves (c := c) h.linked h.tag (fun k => ⟨fun _ _ => Iff.rfl, ?_⟩)
    ⟨none, rfl, fun m => by simp⟩ ⟨.freeStart a n, rfl, fun b m hb => ?_, fun m => ?_⟩
    (fun d m hd => ?_) (fun m => ⟨fun _ _ => Iff.rfl, ?_⟩) h.apart (fun m hm => ?_)
    ⟨?_, fun d _ => (h.knows d).congr rfl rfl rfl⟩
  · rw [h.listed, hplace]
    exact iff_of_false (by simp) (by simp)
  · rw [hc]
    refine iff_of_false ?_ (by simp [AllocThread.freeing])
    rintro ⟨⟩
    exact hb rfl
  · simp [AllocThread.freeing]
  · rw [hplace]
    refine ⟨by simp, ?_⟩
    rintro ⟨⟩
    exact hd rfl
  · show (a, m) ∈ s.chunks ↔ some (z.blockSize n) = some m
    rw [h.chunks, hplace]
    rfl
  · cases hm
  · rw [goesOn_threads_self]
    exact ⟨h.pos a n ha, hmax⟩

/-- A block that is larger than `MaxSize` is given back. -/
lemma Holds.release_large (h : s.Holds z tags l p) (c : ι) (ha : s.held a = some n)
    (hmax : z.maxSize < n) :
    Holds z tags { s with
      held := Function.update s.held a none
      chunks := s.chunks.erase (a, n) } l (Function.update p a .nowhere) := by
  have hplace := (h.held a n).1 ha
  have hsize : (p a).size z = some n := by
    rw [hplace]
    exact congrArg some (if_pos hmax)
  refine h.moves (c := c) h.linked h.tag (fun k => ⟨fun _ _ => Iff.rfl, ?_⟩)
    ⟨none, rfl, fun m => by simp⟩ ⟨s.threads c, (Function.update_eq_self ..).symm,
      fun b m _ => Iff.rfl, fun m => ?_⟩
    (fun d m hd => by rw [hplace]; exact ⟨by simp, by simp⟩) (fun m => ⟨fun b hb => ?_, ?_⟩)
    (h.apart.sublist List.erase_sublist) (fun m hm => by cases hm)
    ⟨(h.knows c).congr rfl rfl rfl, fun d _ => (h.knows d).congr rfl rfl rfl⟩
  · rw [h.listed, hplace]
    exact iff_of_false (by simp) (by simp)
  · rw [h.freed, hplace]
    exact iff_of_false (by simp) (by simp)
  · rw [h.chunks_nodup.mem_erase_iff]
    simp [hb]
  · rw [h.chunks_nodup.mem_erase_iff, h.chunks, hsize]
    refine iff_of_false ?_ (by simp [Place.size])
    rintro ⟨hneq, heq⟩
    cases heq
    exact hneq rfl

/-- A new block is handed out. -/
lemma Holds.obtain (h : s.Holds z tags l p) (hc : s.threads c = .mallocPool n)
    (hnew : ∀ r ∈ s.chunks, Apart (a, z.blockSize n) r) :
    ({ s with chunks := (a, z.blockSize n) :: s.chunks }.returns c a n).Holds z tags l
      (Function.update p a (.held n)) := by
  have hpos : 0 < n := by
    have hknows := h.knows c
    rw [hc] at hknows
    exact hknows
  have hplace := h.nowhere hpos hnew
  have hsize : ∀ m, (p a).size z ≠ some m := by
    rw [hplace]
    exact fun m => (Option.some_ne_none m).symm
  refine h.moves (c := c) h.linked h.tag (fun k => ⟨fun _ _ => Iff.rfl, ?_⟩)
    ⟨some n, rfl, fun m => by simp⟩ ⟨.idle, rfl, fun b m _ => ?_, fun m => ?_⟩
    (fun d m _ => by rw [hplace]; exact ⟨by simp, by simp⟩) (fun m => ⟨fun b hb => ?_, ?_⟩)
    (List.pairwise_cons.2 ⟨hnew, h.apart⟩) (fun m hm => ?_)
    ⟨?_, fun d _ => (h.knows d).congr rfl rfl rfl⟩
  · rw [h.listed, hplace]
    exact iff_of_false (by simp) (by simp)
  · rw [hc]
    rfl
  · simp [AllocThread.freeing]
  · show (b, m) ∈ (a, z.blockSize n) :: s.chunks ↔ (b, m) ∈ s.chunks
    simp [hb]
  · show (a, m) ∈ (a, z.blockSize n) :: s.chunks ↔ some (z.blockSize n) = some m
    rw [List.mem_cons, h.chunks, or_iff_left (hsize m)]
    simp [eq_comm]
  · cases hm
    exact hpos
  · rw [returns, goesOn_threads_self]
    trivial

/-! ### The steps -/

/-- An access of a thread. -/
lemma Holds.go (h : s.Holds z tags l p) (htime : InTime z tags (.go c) s)
    (hgo : s.go z tags c = some s') : ∃ l' p', s'.Holds z tags l' p' := by
  have hknows := h.knows c
  unfold PoolAllocator.go at hgo
  cases hc : s.threads c with
  | idle | mallocPool n =>
    rw [hc] at hgo
    cases hgo
  | mallocStart n =>
    rw [hc] at hgo hknows
    cases hgo
    exact ⟨l, p, h.goesOn (by rw [hc]; rfl) hknows⟩
  | mallocCopied n ptr =>
    rw [hc] at hgo hknows
    cases hgo
    exact ⟨l, p, h.goesOn (by rw [hc]; rfl) ⟨hknows, Nat.le_refl _, h.tag _⟩⟩
  | mallocRead n oldFree seen =>
    rw [hc] at hgo hknows
    obtain ⟨hn, hseen, htag⟩ := hknows
    cases ha : oldFree.ptr with
    | none =>
      simp only [ha] at hgo
      cases hgo
      exact ⟨l, p, h.goesOn (by rw [hc]; rfl) hn.1⟩
    | some a =>
      simp only [ha] at hgo
      cases hgo
      refine ⟨l, p, h.goesOn (by rw [hc]; rfl) ⟨hn, hseen, htag, fun _ _ b hb => ?_⟩⟩
      obtain rfl : a = b := Option.some.inj (ha.symm.trans hb)
      rfl
  | mallocSwap n oldFree next seen =>
    rw [hc] at hgo hknows
    cases ha : oldFree.ptr with
    | none =>
      simp only [ha] at hgo
      cases hgo
    | some a =>
      simp only [ha] at hgo
      split_ifs at hgo with hold
      · cases hgo
        simp only [InTime, hc, decide_eq_true_eq] at htime
        exact h.pop hc ha hold htime
      · cases hgo
        exact ⟨l, p, h.goesOn (by rw [hc]; rfl) hknows.1⟩
  | freeStart a n | freeCopied a n ptr =>
    rw [hc] at hgo hknows
    cases hgo
    exact ⟨l, p, h.goesOn (by rw [hc]; rfl) hknows⟩
  | freeWrite a n oldFree =>
    rw [hc] at hgo hknows
    cases hgo
    have hplace : p a = .freed c n := (h.freed c a n).1 (by rw [hc]; rfl)
    have hlisted : ∀ k, p a ≠ .listed k := by
      rw [hplace]
      simp
    refine ⟨l, p, (h.write hlisted (v := oldFree.ptr) fun d => ?_).goesOn (by rw [hc]; rfl)
      ⟨hknows, Function.update_self ..⟩⟩
    by_cases hd : d = c
    · subst hd
      rw [hc]
      exact hknows
    · refine (h.knows d).write (h.ne_head hlisted) fun m hm => ?_
      rw [h.freed, hplace] at hm
      cases hm
      exact hd rfl
  | freeSwap a n oldFree =>
    rw [hc] at hgo hknows
    simp only at hgo
    split_ifs at hgo with hold
    · cases hgo
      subst hold
      exact h.push hc
    · cases hgo
      exact ⟨l, p, h.goesOn (by rw [hc]; rfl) hknows.1⟩

/-- Every step keeps the blocks at one place each. -/
lemma Holds.step (h : s.Holds z tags l p) {e : AllocStep ι} (htime : InTime z tags e s)
    (hstep : s.step z tags e = some s') : ∃ l' p', s'.Holds z tags l' p' := by
  cases e with
  | malloc c n =>
    simp only [PoolAllocator.step] at hstep
    split at hstep
    · rename_i hc
      split_ifs at hstep with hn hmax
      · cases hstep
        exact ⟨l, p, h.goesOn (by rw [hc]; rfl) (Nat.pos_of_ne_zero hn)⟩
      · cases hstep
        exact ⟨l, p, h.goesOn (by rw [hc]; rfl) ⟨Nat.pos_of_ne_zero hn, Nat.le_of_not_lt hmax⟩⟩
    · cases hstep
  | free c a n =>
    simp only [PoolAllocator.step] at hstep
    split at hstep
    · rename_i hc
      split_ifs at hstep with ha hmax
      · cases hstep
        exact ⟨l, _, h.release_large c ha hmax⟩
      · cases hstep
        exact ⟨l, _, h.release hc ha (Nat.le_of_not_lt hmax)⟩
    · cases hstep
  | go c => exact h.go htime hstep
  | chunk c a =>
    simp only [PoolAllocator.step] at hstep
    split at hstep
    · rename_i n hc
      split_ifs at hstep with hnew
      cases hstep
      refine ⟨l, _, h.obtain hc fun r hr => ?_⟩
      simpa using List.all_eq_true.1 hnew r hr
    · cases hstep
  | noMemory c =>
    simp only [PoolAllocator.step] at hstep
    split at hstep
    · rename_i n hc
      cases hstep
      exact ⟨l, p, h.goesOn (by rw [hc]; rfl) trivial⟩
    · cases hstep
  | write a v =>
    simp only [PoolAllocator.step] at hstep
    split_ifs at hstep with ha
    cases hstep
    obtain ⟨n, hn⟩ := Option.ne_none_iff_exists'.1 ha
    have hplace := (h.held a n).1 hn
    have hlisted : ∀ k, p a ≠ .listed k := by
      rw [hplace]
      simp
    refine ⟨l, p, h.write hlisted fun d => (h.knows d).write (h.ne_head hlisted) fun m hm => ?_⟩
    rw [h.freed, hplace] at hm
    cases hm

omit [DecidableEq ι] in
lemma holds_start :
    Holds z tags ({} : PoolAllocator ι) (fun _ => []) (fun _ => .nowhere) where
  linked _ := rfl
  tag _ := (Nat.zero_mod tags).symm
  listed := by simp
  held := by simp
  freed := by simp [AllocThread.freeing]
  chunks := by simp [Place.size]
  apart := List.Pairwise.nil
  pos a n h := by cases h
  knows _ := trivial

lemma run_holds {es : List (AllocStep ι)}
    (htime : meets (step z tags) (InTime z tags) {} es)
    (h : run (step z tags) {} es = some s) : ∃ l p, s.Holds z tags l p :=
  reached_invariant (P := fun s => ∃ l p, Holds z tags s l p)
    (Q := fun e s => InTime z tags e s = true) ⟨_, _, holds_start⟩
    (fun _ _ _ ⟨_, _, hu⟩ he hstep => hu.step he hstep) (meets_iff.1 htime) h

/-- Nobody has the block that is handed out. -/
lemma Holds.handsOut (h : s.Holds z tags l p) {e : AllocStep ι} (hstep : s.step z tags e = some s')
    (ha : s.handsOut z e = some a) : s.held a = none := by
  suffices hp : ∀ m, p a ≠ .held m from
    Option.eq_none_iff_forall_ne_some.2 fun m hm => hp m ((h.held a m).1 hm)
  cases e with
  | go c =>
    simp only [PoolAllocator.handsOut] at ha
    split at ha
    · rename_i n oldFree next seen hc
      split_ifs at ha with hold
      obtain ⟨l', hl'⟩ := h.head _ ((congrArg TaggedPtr.ptr hold).trans ha)
      rw [(h.listed _ a).1 (by rw [hl']; exact List.mem_cons_self)]
      simp
    · cases ha
  | chunk c b =>
    obtain rfl : b = a := Option.some.inj ha
    simp only [PoolAllocator.step] at hstep
    split at hstep
    · rename_i n hc
      split_ifs at hstep with hnew
      have hpos := h.knows c
      rw [hc] at hpos
      rw [h.nowhere hpos fun r hr => by simpa using List.all_eq_true.1 hnew r hr]
      simp
    · cases hstep
  | malloc | free | noMemory | write => cases ha

/-- In a run of any threads, in any order of their accesses, and with anything written to the
blocks by those who have them, `malloc` never hands out a block that somebody has, and the blocks
that callers have do not overlap: each of them is as large as was asked for, and none of its bytes
is in another one.  This is so as long as no free list is swapped, between a thread's copy of its
tag and the swap by this thread, as often as there are tags. -/
theorem blocks_apart (z : PoolSizes) (tags : ℕ) {es : List (AllocStep ι)}
    (htime : meets (step z tags) (InTime z tags) {} es)
    (h : run (step z tags) {} es = some s) :
    (∀ e u a, HappensIn (step z tags) {} es e u → u.handsOut z e = some a → u.held a = none) ∧
      (∀ a n, s.held a = some n → n ≤ z.blockSize n ∧ (a, z.blockSize n) ∈ s.chunks) ∧
      ∀ a b n m, s.held a = some n → s.held b = some m → a ≠ b →
        Apart (a, z.blockSize n) (b, z.blockSize m) := by
  obtain ⟨l, p, hs⟩ := run_holds htime h
  have hchunk (a n : ℕ) (ha : s.held a = some n) : (a, z.blockSize n) ∈ s.chunks := by
    rw [hs.chunks, (hs.held a n).1 ha]
    rfl
  refine ⟨fun e u a hu ha => ?_, fun a n ha => ⟨PoolSizes.le_blockSize, hchunk a n ha⟩, ?_⟩
  · obtain ⟨before, after, u', rfl, hbefore, hstep, -⟩ := hu.next h
    have htime' : meets (step z tags) (InTime z tags) {} before :=
      meets_iff.2 fun f v hv => meets_iff.1 htime f v (hv.append _)
    obtain ⟨l', p', hu'⟩ := run_holds htime' hbefore
    exact hu'.handsOut hstep ha
  · intro a b n m ha hb hne
    exact hs.apart.forall (hchunk a n ha) (hchunk b m hb) fun heq => hne (congrArg Prod.fst heq)

/-- A thread has copied the first block of the free list and the next one; another thread takes both
and releases the first one, which is the first one again then, so the thread starts again. -/
theorem blocks_apart_reused :
    let steps (c n : ℕ) : List (AllocStep ℕ) := List.replicate n (.go c)
    let es : List (AllocStep ℕ) := [.malloc 0 10] ++ steps 0 3 ++ [.chunk 0 256] ++
      [.malloc 0 12] ++ steps 0 3 ++ [.chunk 0 512] ++ [.free 0 512 12] ++ steps 0 4 ++
      [.free 0 256 10] ++ steps 0 4 ++ [.malloc 0 10] ++ steps 0 3 ++
      [.malloc 1 10] ++ steps 1 4 ++ [.write 256 (some 77)] ++ [.malloc 1 12] ++ steps 1 4 ++
      [.free 1 256 10] ++ steps 1 4 ++ steps 0 5
    let s := run (step eventAllocator 65536) {} es
    s.map (fun s => (s.held 256, s.held 512)) = some (some 10, some 12) ∧
      ∀ s', s = some s' → Apart (256, eventAllocator.blockSize 10)
        (512, eventAllocator.blockSize 12) := by
  intro steps es s
  have hrun : s.map (fun s => (s.held 256, s.held 512)) = some (some 10, some 12) := by
    decide +kernel
  refine ⟨hrun, fun s' hs' => ?_⟩
  have hes : run (step eventAllocator 65536) {} es = some s' := hs'
  rw [hs', Option.map_some] at hrun
  simp only [Option.some.injEq, Prod.mk.injEq] at hrun
  exact (blocks_apart eventAllocator 65536 (by decide +kernel) hes).2.2 256 512 10 12
    hrun.1 hrun.2 (by decide)

/-! ### No block is lost -/

/-- Every block is on one free list, or with one caller, or being released by one thread. -/
structure Kept (z : PoolSizes) (s : PoolAllocator ι) (l : ℕ → List ℕ) : Prop where
  linked : ∀ k, Linked s.next (s.freePtr k).ptr (l k)
  somewhere : ∀ a m, (a, m) ∈ s.chunks → (∃ k, a ∈ l k ∧ m = z.poolSize k) ∨
    (∃ n, s.held a = some n ∧ m = z.blockSize n) ∨
    ∃ c n, (s.threads c).freeing = some (a, n) ∧ m = z.blockSize n
  listed : ∀ k a, a ∈ l k → (a, z.poolSize k) ∈ s.chunks ∧ s.held a = none
  listed_once : ∀ k k' a, a ∈ l k → a ∈ l k' → k = k'
  freed : ∀ c a n, (s.threads c).freeing = some (a, n) →
    (a, z.blockSize n) ∈ s.chunks ∧ s.held a = none ∧ ∀ k, a ∉ l k
  freed_once : ∀ c d a n m, (s.threads c).freeing = some (a, n) →
    (s.threads d).freeing = some (a, m) → c = d

omit [DecidableEq ι] in
lemma Holds.kept (h : s.Holds z tags l p) : Kept z s l where
  linked := h.linked
  somewhere a m hm := by
    have hsize := (h.chunks a m).1 hm
    cases hp : p a with
    | nowhere =>
      rw [hp] at hsize
      cases hsize
    | listed k =>
      rw [hp] at hsize
      cases hsize
      exact Or.inl ⟨k, (h.listed k a).2 hp, rfl⟩
    | held n =>
      rw [hp] at hsize
      cases hsize
      exact Or.inr (Or.inl ⟨n, (h.held a n).2 hp, rfl⟩)
    | freed c n =>
      rw [hp] at hsize
      cases hsize
      exact Or.inr (Or.inr ⟨c, n, (h.freed c a n).2 hp, rfl⟩)
  listed k a ha := by
    have hp := (h.listed k a).1 ha
    refine ⟨(h.chunks a _).2 (by rw [hp]; rfl), ?_⟩
    refine Option.eq_none_iff_forall_ne_some.2 fun m hm => ?_
    rw [h.held, hp] at hm
    cases hm
  listed_once k k' a ha ha' := by
    have hp := (h.listed k a).1 ha
    rw [h.listed, hp] at ha'
    cases ha'
    rfl
  freed c a n hc := by
    have hp := (h.freed c a n).1 hc
    refine ⟨(h.chunks a _).2 (by rw [hp]; rfl), ?_, fun k hk => ?_⟩
    · refine Option.eq_none_iff_forall_ne_some.2 fun m hm => ?_
      rw [h.held, hp] at hm
      cases hm
    · rw [h.listed, hp] at hk
      cases hk
  freed_once c d a n m hc hd := by
    have hp := (h.freed c a n).1 hc
    rw [h.freed, hp] at hd
    cases hd
    rfl

/-- In every such run no block is lost, and none is in two places: all memory that the pools have
returned is on the free list of the pool of its size, which is a list that ends, or with the caller
that asked for such a size, or a thread is releasing it. -/
theorem blocks_kept (z : PoolSizes) (tags : ℕ) {es : List (AllocStep ι)}
    (htime : meets (step z tags) (InTime z tags) {} es)
    (h : run (step z tags) {} es = some s) : ∃ l, Kept z s l := by
  obtain ⟨l, p, hs⟩ := run_holds htime h
  exact ⟨l, hs.kept⟩

/-- One of two blocks is on the free list again. -/
theorem blocks_kept_two :
    let steps (c n : ℕ) : List (AllocStep ℕ) := List.replicate n (.go c)
    let es : List (AllocStep ℕ) := [.malloc 0 10] ++ steps 0 3 ++ [.chunk 0 256] ++
      [.malloc 1 40] ++ steps 1 3 ++ [.chunk 1 512] ++ [.free 1 256 10] ++ steps 1 4
    let s := run (step eventAllocator 65536) {} es
    s.isSome ∧ ∀ s', s = some s' → ∃ l, Kept eventAllocator s' l := by
  intro steps es s
  refine ⟨by decide +kernel, fun s' hs' => ?_⟩
  have hes : run (step eventAllocator 65536) {} es = some s' := hs'
  exact blocks_kept eventAllocator 65536 (by decide +kernel) hes

end PoolAllocator

end PionCore.Common
