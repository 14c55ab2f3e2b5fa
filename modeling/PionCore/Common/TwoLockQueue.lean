/-
# The steps of the locked queue

`PionLockedQueue` once more, in the single steps of `push`, `dequeue` and `pop`, each of which is
one access of the queue: the mutexes of the head and of the tail are locked and unlocked, the nodes
are created, linked and destroyed, and the size is counted outside of these.  The nodes are numbered
by their addresses, which are used again.  The list of the idle consumers is left out here.

The order in which items are linked and taken, and what `pop` has returned to a thread, is kept
with the queue.
-/
import PionCore.Lib.LinkedList
import PionCore.Lib.Runs
import PionCore.Lib.Threads
import Mathlib.Algebra.Group.Int.Defs
import Mathlib.Algebra.Group.Nat.Defs

namespace PionCore.Common

open PionCore.Lib

/-- `QueueNode`. -/
structure QueueNode (τ : Type*) where
  data : τ
  next : Option ℕ := none
  version : ℕ := 0

/-- Where a thread is in `push`, `dequeue` or `pop`. -/
inductive QueueThread (τ : Type*) where
  | idle
  /-- `push`, in front of the test of the size -/
  | testing (t : τ)
  | creating (t : τ)
  /-- in front of the mutex of the tail -/
  | created (a : ℕ)
  | numbering (a : ℕ)
  | linking (a : ℕ)
  /-- the node is linked, and the tail pointer is not updated -/
  | moving (a : ℕ)
  | counting
  | pushed
  /-- `pop`, in front of the test of `isRunning` -/
  | restarting
  /-- `dequeue`, in front of the mutex of the head -/
  | locking (waits : Bool)
  | reading (waits : Bool)
  | empty (waits : Bool)
  | leaving (waits : Bool) (version : ℕ)
  /-- the next node is found -/
  | found (a : ℕ)
  | copied (a : ℕ) (t : τ)
  /-- the head pointer is updated -/
  | unlocking (old : ℕ) (t : τ)
  | destroying (old : ℕ) (t : τ)
  | decrementing (t : τ)
  /-- `pop` has found an empty queue, in front of the mutex of the tail -/
  | checking (version : ℕ)
  | comparing (version : ℕ)
  | waiting
  /-- `pop` holds the mutex of the tail, and is going to try again -/
  | released

namespace QueueThread

variable {τ : Type*}

def holdsTail : QueueThread τ → Bool
  | numbering _ | linking _ | moving _ | counting | pushed | comparing _ | released => true
  | idle | testing _ | creating _ | created _ | restarting | locking _ | reading _ | empty _
  | leaving _ _ | found _ | copied _ _ | unlocking _ _ | destroying _ _ | decrementing _
  | checking _ | waiting => false

def holdsHead : QueueThread τ → Bool
  | reading _ | empty _ | leaving _ _ | found _ | copied _ _ | unlocking _ _ => true
  | idle | testing _ | creating _ | created _ | numbering _ | linking _ | moving _ | counting
  | pushed | restarting | locking _ | destroying _ _ | decrementing _ | checking _ | comparing _
  | waiting | released => false

/-- A node that is not linked yet. -/
def fresh : QueueThread τ → Option ℕ
  | created a | numbering a | linking a => some a
  | idle | testing _ | creating _ | moving _ | counting | pushed | restarting | locking _
  | reading _ | empty _ | leaving _ _ | found _ | copied _ _ | unlocking _ _ | destroying _ _
  | decrementing _ | checking _ | comparing _ | waiting | released => none

/-- A node that only this thread knows: it is not linked yet, or not any more. -/
def owns : QueueThread τ → Option ℕ
  | created a | numbering a | linking a | unlocking a _ | destroying a _ => some a
  | idle | testing _ | creating _ | moving _ | counting | pushed | restarting | locking _
  | reading _ | empty _ | leaving _ _ | found _ | copied _ _ | decrementing _ | checking _
  | comparing _ | waiting | released => none

/-- A node that is linked, while the tail pointer is behind. -/
def linked : QueueThread τ → Option ℕ
  | moving a => some a
  | idle | testing _ | creating _ | created _ | numbering _ | linking _ | counting | pushed
  | restarting | locking _ | reading _ | empty _ | leaving _ _ | found _ | copied _ _
  | unlocking _ _ | destroying _ _ | decrementing _ | checking _ | comparing _ | waiting
  | released => none

/-- The first node, for a thread that holds the mutex of the head. -/
def first : QueueThread τ → Option ℕ
  | found a | copied a _ => some a
  | idle | testing _ | creating _ | created _ | numbering _ | linking _ | moving _ | counting
  | pushed | restarting | locking _ | reading _ | empty _ | leaving _ _ | unlocking _ _
  | destroying _ _ | decrementing _ | checking _ | comparing _ | waiting | released => none

/-- The first item, for a thread that holds the mutex of the head. -/
def item : QueueThread τ → Option τ
  | copied _ t => some t
  | idle | testing _ | creating _ | created _ | numbering _ | linking _ | moving _ | counting
  | pushed | restarting | locking _ | reading _ | empty _ | leaving _ _ | found _ | unlocking _ _
  | destroying _ _ | decrementing _ | checking _ | comparing _ | waiting | released => none

/-- The item that is taken, and not returned yet. -/
def taken : QueueThread τ → Option τ
  | unlocking _ t | destroying _ t | decrementing t => some t
  | idle | testing _ | creating _ | created _ | numbering _ | linking _ | moving _ | counting
  | pushed | restarting | locking _ | reading _ | empty _ | leaving _ _ | found _ | copied _ _
  | checking _ | comparing _ | waiting | released => none

/-- An item was linked, and not counted. -/
def uncounted : QueueThread τ → Bool
  | moving _ | counting => true
  | idle | testing _ | creating _ | created _ | numbering _ | linking _ | pushed | restarting
  | locking _ | reading _ | empty _ | leaving _ _ | found _ | copied _ _ | unlocking _ _
  | destroying _ _ | decrementing _ | checking _ | comparing _ | waiting | released => false

variable {s : QueueThread τ} {a : ℕ}

lemma owns_of_fresh (h : s.fresh = some a) : s.owns = some a := by
  cases s <;> first | exact h | cases h

lemma holdsTail_of_linked (h : s.linked = some a) : s.holdsTail = true := by
  cases s <;> first | rfl | cases h

lemma holdsTail_of_uncounted (h : s.uncounted = true) : s.holdsTail = true := by
  cases s <;> first | rfl | cases h

lemma holdsHead_of_first (h : s.first = some a) : s.holdsHead = true := by
  cases s <;> first | rfl | cases h

lemma holdsHead_of_item {t : τ} (h : s.item = some t) : s.holdsHead = true := by
  cases s <;> first | rfl | cases h

/-- Two places of a thread that differ in the mutexes only. -/
structure Like (s s' : QueueThread τ) : Prop where
  fresh : s.fresh = s'.fresh
  owns : s.owns = s'.owns
  linked : s.linked = s'.linked
  first : s.first = s'.first
  item : s.item = s'.item
  taken : s.taken = s'.taken

end QueueThread

structure TwoLockQueue (τ : Type*) where
  nodes : ℕ → Option (QueueNode τ)
  head : ℕ := 0
  tail : ℕ := 0
  headOwner : Option ℕ := none
  tailOwner : Option ℕ := none
  nextVersion : ℕ := 1
  size : ℤ := 0
  threads : ℕ → QueueThread τ := fun _ => .idle
  /-- a node was read, written or destroyed that is not there -/
  misuse : Bool := false
  enqueued : List τ := []
  /-- the items that were taken, with the threads that took them -/
  dequeued : List (ℕ × τ) := []
  results : ℕ → List τ := fun _ => []

/-- The steps of a thread. -/
inductive QueueStep (τ : Type*) where
  | push (c : ℕ) (t : τ)
  /-- with a `ConsumerThread`, or without -/
  | pop (c : ℕ) (waits : Bool)
  /-- `createNode` gets the address -/
  | createNode (c a : ℕ)
  /-- `isRunning` is false, or the wakeup time is over -/
  | stop (c : ℕ)
  /-- the next step of the thread -/
  | go (c : ℕ)

namespace TwoLockQueue

variable {τ : Type*}

/-- `initialize`: a dummy node. -/
def start (dummy : τ) : TwoLockQueue τ where
  nodes := Function.update (fun _ => none) 0 (some { data := dummy })

def goesOn (q : TwoLockQueue τ) (c : ℕ) (s : QueueThread τ) : TwoLockQueue τ :=
  { q with threads := Function.update q.threads c s }

/-- An access to a node, which must be there. -/
def access (q : TwoLockQueue τ) (a : ℕ) (f : QueueNode τ → TwoLockQueue τ) : TwoLockQueue τ :=
  match q.nodes a with
  | none => { q with misuse := true }
  | some node => f node

def setNode (q : TwoLockQueue τ) (a : ℕ) (node : QueueNode τ) : TwoLockQueue τ :=
  { q with nodes := Function.update q.nodes a (some node) }

def lockTail (q : TwoLockQueue τ) (c : ℕ) (s : QueueThread τ) : Option (TwoLockQueue τ) :=
  if q.tailOwner = none then some ({ q with tailOwner := some c }.goesOn c s) else none

def unlockTail (q : TwoLockQueue τ) (c : ℕ) (s : QueueThread τ) : TwoLockQueue τ :=
  { q with tailOwner := none }.goesOn c s

def lockHead (q : TwoLockQueue τ) (c : ℕ) (s : QueueThread τ) : Option (TwoLockQueue τ) :=
  if q.headOwner = none then some ({ q with headOwner := some c }.goesOn c s) else none

def unlockHead (q : TwoLockQueue τ) (c : ℕ) (s : QueueThread τ) : TwoLockQueue τ :=
  { q with headOwner := none }.goesOn c s

/-- The item of a node. -/
def dataOf (q : TwoLockQueue τ) (a : ℕ) : Option τ := (q.nodes a).map QueueNode.data

def nextOf (q : TwoLockQueue τ) (a : ℕ) : Option ℕ := (q.nodes a).bind QueueNode.next

/-- The next step of a thread; `none` is a thread that sleeps, or waits for a mutex. -/
def go (maxSize : ℕ) (q : TwoLockQueue τ) (c : ℕ) : Option (TwoLockQueue τ) :=
  match q.threads c with
  | .idle => none
  -- `size` returns an unsigned number
  | .testing t =>
      if maxSize = 0 ∨ q.size % 2 ^ 64 < maxSize then some (q.goesOn c (.creating t)) else none
  | .creating _ => none
  | .created a => q.lockTail c (.numbering a)
  | .numbering a =>
      some (q.access a fun node =>
        let version := (q.nextVersion + 2) % 2 ^ 32
        { q with nextVersion := version }.setNode a { node with version := version }
          |>.goesOn c (.linking a))
  | .linking a =>
      some (q.access q.tail fun node =>
        { q with enqueued := q.enqueued ++ (q.dataOf a).toList }.setNode q.tail
          { node with next := some a } |>.goesOn c (.moving a))
  | .moving a => some ({ q with tail := a }.goesOn c .counting)
  | .counting => some ({ q with size := q.size + 1 }.goesOn c .pushed)
  | .pushed => some (q.unlockTail c .idle)
  | .restarting => some (q.goesOn c (.locking true))
  | .locking waits => q.lockHead c (.reading waits)
  | .reading waits =>
      some (q.access q.head fun node =>
        match node.next with
        | none => q.goesOn c (.empty waits)
        | some a => q.goesOn c (.found a))
  | .empty waits => some (q.access q.head fun node => q.goesOn c (.leaving waits node.version))
  | .leaving waits version =>
      some (q.unlockHead c (if waits then .checking version else .idle))
  | .found a => some (q.access a fun node => q.goesOn c (.copied a node.data))
  | .copied a t =>
      some ({ q with head := a, dequeued := q.dequeued ++ [(c, t)] }.goesOn c (.unlocking q.head t))
  | .unlocking old t => some (q.unlockHead c (.destroying old t))
  | .destroying old t =>
      some (q.access old fun _ =>
        { q with nodes := Function.update q.nodes old none }.goesOn c (.decrementing t))
  | .decrementing t =>
      some ({ q with
        size := q.size - 1
        results := Function.update q.results c (q.results c ++ [t]) }.goesOn c .idle)
  | .checking version => q.lockTail c (.comparing version)
  | .comparing version =>
      some (q.access q.tail fun node =>
        if node.version = version then q.unlockTail c .waiting else q.goesOn c .released)
  | .waiting => q.lockTail c .released
  | .released => some (q.unlockTail c .restarting)

def step (maxSize : ℕ) (q : TwoLockQueue τ) : QueueStep τ → Option (TwoLockQueue τ)
  | .push c t =>
      match q.threads c with
      | .idle => some (q.goesOn c (.testing t))
      | _ => none
  | .pop c waits =>
      match q.threads c with
      | .idle => some (q.goesOn c (if waits then .restarting else .locking false))
      | _ => none
  | .createNode c a =>
      match q.threads c, q.nodes a with
      | .creating t, none => some (q.setNode a { data := t } |>.goesOn c (.created a))
      | _, _ => none
  | .stop c =>
      match q.threads c with
      | .restarting => some (q.goesOn c .idle)
      | _ => none
  | .go c => q.go maxSize c

/-! ### The nodes and the threads -/

/-- What holds for a thread, where `l` are the nodes behind the head, and `v` their items. -/
structure ThreadOk (q : TwoLockQueue τ) (l : List ℕ) (v : List τ) (c : ℕ) (s : QueueThread τ) :
    Prop where
  tail : s.holdsTail = true ↔ q.tailOwner = some c
  head : s.holdsHead = true ↔ q.headOwner = some c
  fresh : ∀ a, s.fresh = some a → q.nextOf a = none
  owns : ∀ a, s.owns = some a → q.dataOf a ≠ none ∧ a ∉ q.head :: l
  linked : ∀ a, s.linked = some a → (q.head :: l).getLast? = some a
  first : ∀ a, s.first = some a → l.head? = some a
  item : ∀ t, s.item = some t → v.head? = some t
  taken : (q.dequeued.filter (·.1 = c)).map Prod.snd = q.results c ++ s.taken.toList

/-- The nodes behind the head, and their items: they are linked together, and what was enqueued is
what was dequeued, and then these items. -/
structure Holds (q : TwoLockQueue τ) (l : List ℕ) (v : List τ) : Prop where
  linked : Linked q.nextOf (q.nextOf q.head) l
  data : l.map q.dataOf = v.map some
  alive : q.dataOf q.head ≠ none
  fifo : q.enqueued = q.dequeued.map Prod.snd ++ v
  safe : q.misuse = false

structure Sound (q : TwoLockQueue τ) (l : List ℕ) (v : List τ) : Prop where
  holds : q.Holds l v
  /-- the tail pointer is behind only while it is being updated -/
  tail : (∀ c, (q.threads c).linked = none) → (q.head :: l).getLast? = some q.tail
  threads : ∀ c, q.ThreadOk l v c (q.threads c)
  apart : ∀ c d a, (q.threads c).owns = some a → (q.threads d).owns = some a → c = d

variable {q : TwoLockQueue τ} {l : List ℕ} {v : List τ} {c : ℕ} {s s' : QueueThread τ}

@[simp] lemma goesOn_threads_self : (q.goesOn c s).threads c = s := Function.update_self ..

lemma goesOn_threads_of_ne {d : ℕ} (hd : d ≠ c) : (q.goesOn c s).threads d = q.threads d :=
  Function.update_of_ne hd ..

/-- What counts for a thread. -/
lemma ThreadOk.congr {q' : TwoLockQueue τ} (h : q.ThreadOk l v c s)
    (htail : q'.tailOwner = some c ↔ q.tailOwner = some c)
    (hhead : q'.headOwner = some c ↔ q.headOwner = some c)
    (hnext : ∀ a, s.fresh = some a → q'.nextOf a = q.nextOf a)
    (hdata : ∀ a, s.owns = some a → q'.dataOf a = q.dataOf a) (hptr : q'.head = q.head)
    (hdequeued : q'.dequeued = q.dequeued) (hresults : q'.results c = q.results c) :
    q'.ThreadOk l v c s where
  tail := h.tail.trans htail.symm
  head := h.head.trans hhead.symm
  fresh a ha := by
    rw [hnext a ha]
    exact h.fresh a ha
  owns a ha := by
    rw [hdata a ha, hptr]
    exact h.owns a ha
  linked a ha := by
    rw [hptr]
    exact h.linked a ha
  first := h.first
  item := h.item
  taken := by
    rw [hdequeued, hresults]
    exact h.taken

/-- Where the other threads are does not matter. -/
lemma ThreadOk.goesOn (h : q.ThreadOk l v c s) (d : ℕ) (s' : QueueThread τ) :
    (q.goesOn d s').ThreadOk l v c s :=
  h.congr Iff.rfl Iff.rfl (fun _ _ => rfl) (fun _ _ => rfl) rfl rfl rfl

/-- A step of one thread that changes nothing but where the thread is, the mutexes, the size and
what it has returned. -/
lemma Sound.threadStep (hs : q.Sound l v) {q' : TwoLockQueue τ}
    (hnodes : q'.nodes = q.nodes) (hptr : q'.head = q.head) (hend : q'.tail = q.tail)
    (henqueued : q'.enqueued = q.enqueued) (hdequeued : q'.dequeued = q.dequeued)
    (hmisuse : q'.misuse = q.misuse)
    (htail : ∀ d, d ≠ c → (q'.tailOwner = some d ↔ q.tailOwner = some d))
    (hhead : ∀ d, d ≠ c → (q'.headOwner = some d ↔ q.headOwner = some d))
    (hresults : ∀ d, d ≠ c → q'.results d = q.results d)
    (hthreads : q'.threads = Function.update q.threads c s)
    (hok : q'.ThreadOk l v c s) (howns : s.owns = (q.threads c).owns)
    (hlinked : s.linked = (q.threads c).linked) : q'.Sound l v := by
  have hnext : q'.nextOf = q.nextOf := by
    funext a
    rw [nextOf, hnodes, nextOf]
  have hdata : q'.dataOf = q.dataOf := by
    funext a
    rw [dataOf, hnodes, dataOf]
  have hsame : ∀ d, (q'.threads d).owns = (q.threads d).owns ∧
      (q'.threads d).linked = (q.threads d).linked := by
    intro d
    rw [hthreads]
    by_cases hd : d = c
    · subst hd
      rw [Function.update_self]
      exact ⟨howns, hlinked⟩
    · rw [Function.update_of_ne hd]
      exact ⟨rfl, rfl⟩
  refine ⟨⟨?_, ?_, ?_, ?_, ?_⟩, ?_, ?_, ?_⟩
  · rw [hnext, hptr]
    exact hs.holds.linked
  · rw [hdata]
    exact hs.holds.data
  · rw [hdata, hptr]
    exact hs.holds.alive
  · rw [henqueued, hdequeued]
    exact hs.holds.fifo
  · exact hmisuse.trans hs.holds.safe
  · intro hnone
    rw [hptr, hend]
    exact hs.tail fun d => ((hsame d).2).symm.trans (hnone d)
  · intro d
    rw [hthreads]
    by_cases hd : d = c
    · subst hd
      rw [Function.update_self]
      exact hok
    · rw [Function.update_of_ne hd]
      exact (hs.threads d).congr (htail d hd) (hhead d hd) (fun a _ => congrFun hnext a)
        (fun a _ => congrFun hdata a) hptr hdequeued (hresults d hd)
  · intro d e a hd he
    rw [(hsame d).1] at hd
    rw [(hsame e).1] at he
    exact hs.apart d e a hd he

/-- A step between two places that differ in the mutexes only. -/
lemma Sound.goesLike (hs : q.Sound l v) (hlike : s.Like (q.threads c)) (o o' : Option ℕ) (n : ℤ)
    (htail : (s.holdsTail = true ↔ o = some c) ∧ ∀ d, d ≠ c → (o = some d ↔ q.tailOwner = some d))
    (hhead : (s.holdsHead = true ↔ o' = some c) ∧
      ∀ d, d ≠ c → (o' = some d ↔ q.headOwner = some d)) :
    ({ q with tailOwner := o, headOwner := o', size := n }.goesOn c s).Sound l v := by
  have h := hs.threads c
  refine hs.threadStep rfl rfl rfl rfl rfl rfl htail.2 hhead.2 (fun _ _ => rfl) rfl
    ⟨htail.1, hhead.1, ?_, ?_, ?_, ?_, ?_, ?_⟩ hlike.owns hlike.linked
  · rw [hlike.fresh]
    exact h.fresh
  · rw [hlike.owns]
    exact h.owns
  · rw [hlike.linked]
    exact h.linked
  · rw [hlike.first]
    exact h.first
  · rw [hlike.item]
    exact h.item
  · rw [hlike.taken]
    exact h.taken

/-- The mutexes stay as they are. -/
lemma Sound.move (hs : q.Sound l v) (hthread : q.threads c = s') (hlike : s.Like s') (n : ℤ)
    (htail : s.holdsTail = s'.holdsTail) (hhead : s.holdsHead = s'.holdsHead) :
    ({ q with size := n }.goesOn c s).Sound l v := by
  subst hthread
  refine hs.goesLike hlike q.tailOwner q.headOwner n ⟨?_, fun _ _ => Iff.rfl⟩
    ⟨?_, fun _ _ => Iff.rfl⟩
  · rw [htail]
    exact (hs.threads c).tail
  · rw [hhead]
    exact (hs.threads c).head

/-- A mutex that was free, or is given back, is not that of another thread. -/
lemma owner_iff {o : Option ℕ} {d : ℕ} (ho : o = none ∨ o = some c) (hd : d ≠ c) : ¬ o = some d := by
  rcases ho with rfl | rfl
  · exact fun h => by cases h
  · exact fun h => hd (Option.some.inj h).symm

lemma Sound.lockTail (hs : q.Sound l v) (hthread : q.threads c = s') {q' : TwoLockQueue τ}
    (hlock : q.lockTail c s = some q') (hlike : s.Like s') (htail : s.holdsTail = true)
    (hhead : s.holdsHead = s'.holdsHead) : q'.Sound l v := by
  subst hthread
  obtain ⟨hfree, ⟨⟩⟩ := Option.ite_none_right_eq_some.1 hlock
  refine hs.goesLike hlike (some c) q.headOwner q.size ⟨iff_of_true htail rfl, fun d hd => ?_⟩
    ⟨?_, fun _ _ => Iff.rfl⟩
  · exact iff_of_false (owner_iff (Or.inr rfl) hd) (owner_iff (Or.inl hfree) hd)
  · rw [hhead]
    exact (hs.threads c).head

lemma Sound.unlockTail (hs : q.Sound l v) (hthread : q.threads c = s') (hlike : s.Like s')
    (hold : s'.holdsTail = true) (htail : s.holdsTail = false)
    (hhead : s.holdsHead = s'.holdsHead) : (q.unlockTail c s).Sound l v := by
  subst hthread
  have howner := (hs.threads c).tail.1 hold
  refine hs.goesLike hlike none q.headOwner q.size ⟨by simp [htail], fun d hd => ?_⟩
    ⟨?_, fun _ _ => Iff.rfl⟩
  · exact iff_of_false (owner_iff (Or.inl rfl) hd) (owner_iff (Or.inr howner) hd)
  · rw [hhead]
    exact (hs.threads c).head

lemma Sound.lockHead (hs : q.Sound l v) (hthread : q.threads c = s') {q' : TwoLockQueue τ}
    (hlock : q.lockHead c s = some q') (hlike : s.Like s') (hhead : s.holdsHead = true)
    (htail : s.holdsTail = s'.holdsTail) : q'.Sound l v := by
  subst hthread
  obtain ⟨hfree, ⟨⟩⟩ := Option.ite_none_right_eq_some.1 hlock
  refine hs.goesLike hlike q.tailOwner (some c) q.size ⟨?_, fun _ _ => Iff.rfl⟩
    ⟨iff_of_true hhead rfl, fun d hd => ?_⟩
  · rw [htail]
    exact (hs.threads c).tail
  · exact iff_of_false (owner_iff (Or.inr rfl) hd) (owner_iff (Or.inl hfree) hd)

lemma Sound.unlockHead (hs : q.Sound l v) (hthread : q.threads c = s') (hlike : s.Like s')
    (hold : s'.holdsHead = true) (hhead : s.holdsHead = false)
    (htail : s.holdsTail = s'.holdsTail) : (q.unlockHead c s).Sound l v := by
  subst hthread
  have howner := (hs.threads c).head.1 hold
  refine hs.goesLike hlike q.tailOwner none q.size ⟨?_, fun _ _ => Iff.rfl⟩
    ⟨by simp [hhead], fun d hd => ?_⟩
  · rw [htail]
    exact (hs.threads c).tail
  · exact iff_of_false (owner_iff (Or.inl rfl) hd) (owner_iff (Or.inr howner) hd)

/-! ### The nodes change -/

lemma Holds.nodup (h : q.Holds l v) : (q.head :: l).Nodup :=
  linked_nodup (linked_cons.2 h.linked)

/-- The nodes in the queue are there. -/
lemma Holds.dataOf_ne_none (h : q.Holds l v) {a : ℕ} (ha : a ∈ q.head :: l) : q.dataOf a ≠ none := by
  rcases List.mem_cons.1 ha with rfl | hl
  · exact h.alive
  · have hmem : q.dataOf a ∈ v.map some := by
      rw [← h.data]
      exact List.mem_map_of_mem hl
    obtain ⟨t, -, ht⟩ := List.mem_map.1 hmem
    rw [← ht]
    exact Option.some_ne_none t

/-- A node that is there is accessed. -/
lemma access_eq {a : ℕ} (ha : q.dataOf a ≠ none) (f : QueueNode τ → TwoLockQueue τ) :
    ∃ node, q.nodes a = some node ∧ q.access a f = f node := by
  cases hnode : q.nodes a with
  | none =>
    rw [dataOf, hnode] at ha
    exact absurd rfl ha
  | some node =>
    refine ⟨node, rfl, ?_⟩
    rw [access, hnode]

lemma dataOf_eq {a : ℕ} {node : QueueNode τ} (hnode : q.nodes a = some node) :
    q.dataOf a = some node.data := by
  rw [dataOf, hnode]
  rfl

lemma nextOf_eq {a : ℕ} {node : QueueNode τ} (hnode : q.nodes a = some node) :
    q.nextOf a = node.next := by
  rw [nextOf, hnode]
  rfl

/-- A node that is not in the queue, and that no other thread owns, is changed. -/
lemma Sound.changeNode (hs : q.Sound l v) {x : ℕ} {n : ℕ → Option (QueueNode τ)} {k : ℕ}
    (hn : ∀ b, b ≠ x → n b = q.nodes b) (hx : x ∉ q.head :: l)
    (hothers : ∀ d, d ≠ c → (q.threads d).owns ≠ some x)
    (hok : ThreadOk { q with nodes := n, nextVersion := k } l v c s)
    (hlinked : s.linked = (q.threads c).linked)
    (howns : ∀ a, s.owns = some a → a = x ∨ (q.threads c).owns = some a) :
    ({ q with nodes := n, nextVersion := k }.goesOn c s).Sound l v := by
  have hnext : ∀ b, b ≠ x → nextOf { q with nodes := n, nextVersion := k } b = q.nextOf b := by
    intro b hb
    show (n b).bind QueueNode.next = q.nextOf b
    rw [hn b hb, nextOf]
  have hdata : ∀ b, b ≠ x → dataOf { q with nodes := n, nextVersion := k } b = q.dataOf b := by
    intro b hb
    show (n b).map QueueNode.data = q.dataOf b
    rw [hn b hb, dataOf]
  have hne : ∀ b ∈ q.head :: l, b ≠ x := by
    rintro b hb rfl
    exact hx hb
  have hhead : q.head ≠ x := hne q.head List.mem_cons_self
  have hl : ∀ b ∈ l, b ≠ x := fun b hb => hne b (List.mem_cons_of_mem _ hb)
  refine ⟨⟨?_, ?_, ?_, hs.holds.fifo, hs.holds.safe⟩, fun hnone => hs.tail fun d => ?_, fun d => ?_,
    ?_⟩
  · show Linked (nextOf { q with nodes := n, nextVersion := k })
      (nextOf { q with nodes := n, nextVersion := k } q.head) l
    rw [hnext q.head hhead]
    exact linked_congr hs.holds.linked fun b hb => hnext b (hl b hb)
  · show l.map (dataOf { q with nodes := n, nextVersion := k }) = v.map some
    rw [← hs.holds.data]
    exact List.map_congr_left fun b hb => hdata b (hl b hb)
  · show dataOf { q with nodes := n, nextVersion := k } q.head ≠ none
    rw [hdata q.head hhead]
    exact hs.holds.alive
  · have hd := hnone d
    by_cases hdc : d = c
    · subst hdc
      rwa [goesOn_threads_self, hlinked] at hd
    · rwa [goesOn_threads_of_ne hdc] at hd
  · refine ThreadOk.goesOn ?_ c s
    show ThreadOk _ l v d (Function.update q.threads c s d)
    by_cases hdc : d = c
    · subst hdc
      rw [Function.update_self]
      exact hok
    · rw [Function.update_of_ne hdc]
      have hown : ∀ a, (q.threads d).owns = some a → a ≠ x := by
        rintro a ha rfl
        exact hothers d hdc ha
      refine (hs.threads d).congr Iff.rfl Iff.rfl (fun a ha => hnext a (hown a ?_))
        (fun a ha => hdata a (hown a ha)) rfl rfl rfl
      exact QueueThread.owns_of_fresh ha
  · have hboth : ∀ d a, d ≠ c → s.owns = some a → (q.threads d).owns ≠ some a := by
      intro d a hdc hc hd
      rcases howns a hc with rfl | hold
      · exact hothers d hdc hd
      · exact hdc (hs.apart d c a hd hold)
    intro d e a hd he
    by_cases hdc : d = c
    · by_cases hec : e = c
      · exact hdc.trans hec.symm
      · subst hdc
        rw [goesOn_threads_self] at hd
        rw [goesOn_threads_of_ne hec] at he
        exact absurd he (hboth e a hec hd)
    · rw [goesOn_threads_of_ne hdc] at hd
      by_cases hec : e = c
      · subst hec
        rw [goesOn_threads_self] at he
        exact absurd hd (hboth d a hdc he)
      · rw [goesOn_threads_of_ne hec] at he
        exact hs.apart d e a hd he

/-- A new node. -/
lemma Sound.createNode (hs : q.Sound l v) {t : τ} (hthread : q.threads c = .creating t) {a : ℕ}
    (ha : q.nodes a = none) : (q.setNode a { data := t } |>.goesOn c (.created a)).Sound l v := by
  have hdata : q.dataOf a = none := by
    rw [dataOf, ha]
    rfl
  have h := hs.threads c
  rw [hthread] at h
  have hx : a ∉ q.head :: l := fun hmem => hs.holds.dataOf_ne_none hmem hdata
  refine hs.changeNode (fun b hb => Function.update_of_ne hb ..) hx ?_
    ⟨h.tail, h.head, ?_, ?_, ?_, ?_, ?_, h.taken⟩ ?_ ?_
  · intro d hd howns
    exact ((hs.threads d).owns a howns).1 hdata
  · rintro b ⟨⟩
    simp [nextOf]
  · rintro b ⟨⟩
    exact ⟨by simp [dataOf], hx⟩
  · rintro b ⟨⟩
  · rintro b ⟨⟩
  · rintro b ⟨⟩
  · rw [hthread]
    rfl
  · rintro b ⟨⟩
    exact Or.inl rfl

/-- A node that a thread owns is not that of another one. -/
lemma Sound.not_owns (hs : q.Sound l v) {a : ℕ} (howns : (q.threads c).owns = some a) :
    ∀ d, d ≠ c → (q.threads d).owns ≠ some a :=
  fun d hd hd' => hd (hs.apart d c a hd' howns)

/-- A node gets its version. -/
lemma Sound.number (hs : q.Sound l v) {a : ℕ} (hthread : q.threads c = .numbering a) (k m : ℕ)
    {node : QueueNode τ} (hnode : q.nodes a = some node) :
    ({ q with nextVersion := k }.setNode a { node with version := m }
      |>.goesOn c (.linking a)).Sound l v := by
  have howns : (q.threads c).owns = some a := by
    rw [hthread]
    rfl
  have h := hs.threads c
  have hfresh := h.fresh a (by rw [hthread]; rfl)
  have hx := (h.owns a howns).2
  rw [hthread] at h
  rw [nextOf_eq hnode] at hfresh
  refine hs.changeNode (fun b hb => Function.update_of_ne hb ..) hx (hs.not_owns howns)
    ⟨h.tail, h.head, ?_, ?_, h.linked, h.first, h.item, h.taken⟩ ?_ ?_
  · rintro b ⟨⟩
    simpa [nextOf] using hfresh
  · rintro b ⟨⟩
    exact ⟨by simp [dataOf], hx⟩
  · rw [hthread]
    rfl
  · rintro b ⟨⟩
    exact Or.inl rfl

/-- The old head is destroyed. -/
lemma Sound.destroyNode (hs : q.Sound l v) {old : ℕ} {t : τ}
    (hthread : q.threads c = .destroying old t) :
    ({ q with nodes := Function.update q.nodes old none }.goesOn c (.decrementing t)).Sound l v := by
  have howns : (q.threads c).owns = some old := by
    rw [hthread]
    rfl
  have h := hs.threads c
  have hx := (h.owns old howns).2
  rw [hthread] at h
  refine hs.changeNode (fun b hb => Function.update_of_ne hb ..) hx (hs.not_owns howns)
    ⟨h.tail, h.head, ?_, ?_, h.linked, h.first, h.item, h.taken⟩ ?_ ?_
  · rintro b ⟨⟩
  · rintro b ⟨⟩
  · rw [hthread]
    rfl
  · rintro b ⟨⟩

/-- No other thread holds the mutex of the tail, and the tail pointer is right, unless this thread
is updating it. -/
lemma Sound.tail_eq (hs : q.Sound l v) (hholds : (q.threads c).holdsTail = true)
    (hlinked : (q.threads c).linked = none) : (q.head :: l).getLast? = some q.tail := by
  refine hs.tail fun d => ?_
  by_contra hne
  obtain ⟨a, ha⟩ := Option.ne_none_iff_exists'.1 hne
  have hd := (hs.threads d).tail.1 (QueueThread.holdsTail_of_linked ha)
  have hc := (hs.threads c).tail.1 hholds
  obtain rfl : d = c := Option.some.inj (hd.symm.trans hc)
  exact hne hlinked

/-- The tail pointer is updated. -/
lemma Sound.moveTail (hs : q.Sound l v) {a : ℕ} (hthread : q.threads c = .moving a) :
    ({ q with tail := a }.goesOn c .counting).Sound l v := by
  have hlast := (hs.threads c).linked a (by rw [hthread]; rfl)
  have h := hs.threads c
  rw [hthread] at h
  refine ⟨⟨hs.holds.linked, hs.holds.data, hs.holds.alive, hs.holds.fifo, hs.holds.safe⟩,
    fun _ => hlast, fun d => ?_, ?_⟩
  · refine ThreadOk.goesOn ?_ c _
    show ThreadOk _ l v d (Function.update q.threads c .counting d)
    by_cases hd : d = c
    · subst hd
      rw [Function.update_self]
      refine ⟨h.tail, h.head, h.fresh, h.owns, ?_, h.first, h.item, h.taken⟩
      rintro b ⟨⟩
    · rw [Function.update_of_ne hd]
      exact (hs.threads d).congr Iff.rfl Iff.rfl (fun _ _ => rfl) (fun _ _ => rfl) rfl rfl rfl
  · have hsame : ∀ d, ({ q with tail := a }.goesOn c .counting).threads d = .counting ∨
        ({ q with tail := a }.goesOn c .counting).threads d = q.threads d := by
      intro d
      by_cases hd : d = c
      · subst hd
        exact Or.inl goesOn_threads_self
      · exact Or.inr (goesOn_threads_of_ne hd)
    intro d e b hd he
    rcases hsame d with hd' | hd' <;> rw [hd'] at hd
    · cases hd
    · rcases hsame e with he' | he' <;> rw [he'] at he
      · cases he
      · exact hs.apart d e b hd he

/-- The item is returned. -/
lemma Sound.decrement (hs : q.Sound l v) {t : τ} (hthread : q.threads c = .decrementing t) (n : ℤ) :
    ({ q with size := n, results := Function.update q.results c (q.results c ++ [t]) }.goesOn c
      .idle).Sound l v := by
  have h := hs.threads c
  rw [hthread] at h
  refine hs.threadStep rfl rfl rfl rfl rfl rfl (fun _ _ => Iff.rfl) (fun _ _ => Iff.rfl)
    (fun d hd => Function.update_of_ne hd ..) rfl
    ⟨h.tail, h.head, h.fresh, h.owns, h.linked, h.first, h.item, ?_⟩ (by rw [hthread]; rfl)
    (by rw [hthread]; rfl)
  show _ = Function.update q.results c (q.results c ++ [t]) c ++ []
  rw [Function.update_self, List.append_nil]
  exact h.taken

/-- The next node of the head is the first one. -/
lemma Sound.find (hs : q.Sound l v) {waits : Bool} (hthread : q.threads c = .reading waits) {a : ℕ}
    (ha : q.nextOf q.head = some a) : (q.goesOn c (.found a)).Sound l v := by
  have h := hs.threads c
  rw [hthread] at h
  refine hs.threadStep rfl rfl rfl rfl rfl rfl (fun _ _ => Iff.rfl) (fun _ _ => Iff.rfl)
    (fun _ _ => rfl) rfl ⟨h.tail, h.head, h.fresh, h.owns, h.linked, ?_, h.item, h.taken⟩
    (by rw [hthread]; rfl) (by rw [hthread]; rfl)
  rintro b ⟨⟩
  have hlinked := hs.holds.linked
  rw [ha] at hlinked
  cases l with
  | nil => cases hlinked
  | cons b l => exact hlinked.1.symm

/-- The item of the first node is copied. -/
lemma Sound.copy (hs : q.Sound l v) {a : ℕ} (hthread : q.threads c = .found a) {t : τ}
    (ht : q.dataOf a = some t) : (q.goesOn c (.copied a t)).Sound l v := by
  have h := hs.threads c
  rw [hthread] at h
  refine hs.threadStep rfl rfl rfl rfl rfl rfl (fun _ _ => Iff.rfl) (fun _ _ => Iff.rfl)
    (fun _ _ => rfl) rfl ⟨h.tail, h.head, h.fresh, h.owns, h.linked, h.first, ?_, h.taken⟩
    (by rw [hthread]; rfl) (by rw [hthread]; rfl)
  rintro t' ⟨⟩
  have hfirst := h.first a rfl
  have hdata := hs.holds.data
  cases l with
  | nil => cases hfirst
  | cons b l =>
    obtain rfl : b = a := Option.some.inj hfirst
    cases v with
    | nil => cases hdata
    | cons t' v =>
      rw [List.map_cons, List.map_cons, ht] at hdata
      exact congrArg some (Option.some.inj (List.cons.inj hdata).1).symm

/-- A node is linked to the last one. -/
lemma Sound.link (hs : q.Sound l v) {a : ℕ} (hthread : q.threads c = .linking a)
    {node : QueueNode τ} (hnode : q.nodes q.tail = some node) :
    ∃ t, ({ q with enqueued := q.enqueued ++ (q.dataOf a).toList }.setNode q.tail
      { node with next := some a } |>.goesOn c (.moving a)).Sound (l ++ [a]) (v ++ [t]) := by
  have h := hs.threads c
  have howns : (q.threads c).owns = some a := by
    rw [hthread]
    rfl
  have hfresh := h.fresh a (by rw [hthread]; rfl)
  obtain ⟨halive, hx⟩ := h.owns a howns
  have hlast := hs.tail_eq (by rw [hthread]; rfl) (by rw [hthread]; rfl)
  rw [hthread] at h
  obtain ⟨t, ht⟩ := Option.ne_none_iff_exists'.1 halive
  refine ⟨t, ?_⟩
  have hmem : q.tail ∈ q.head :: l := List.mem_of_getLast? hlast
  set q' : TwoLockQueue τ := { q with enqueued := q.enqueued ++ (q.dataOf a).toList }.setNode q.tail
    { node with next := some a } with hq'
  have hne : a ≠ q.tail := fun heq => hx (heq ▸ hmem)
  have hdata : ∀ b, q'.dataOf b = q.dataOf b := by
    intro b
    by_cases hb : b = q.tail
    · subst hb
      rw [dataOf_eq hnode]
      simp [dataOf, hq', setNode]
    · simp [dataOf, hq', setNode, Function.update_of_ne hb]
  have hnext : ∀ b, b ≠ q.tail → q'.nextOf b = q.nextOf b := by
    intro b hb
    simp [nextOf, hq', setNode, Function.update_of_ne hb]
  have htailnext : q'.nextOf q.tail = some a := by
    simp [nextOf, hq', setNode]
  -- the nodes from the head now end with the new one
  have hchain : Linked q'.nextOf (some q.head) ((q.head :: l) ++ [a]) := by
    refine linked_snoc (linked_cons.2 hs.holds.linked) hlast (fun b _ hb => hnext b hb) htailnext ?_
    rw [hnext a hne]
    exact hfresh
  refine ⟨⟨linked_cons.1 hchain, ?_, ?_, ?_, hs.holds.safe⟩, ?_, fun d => ?_, ?_⟩
  · show (l ++ [a]).map q'.dataOf = (v ++ [t]).map some
    rw [funext hdata, List.map_append, hs.holds.data, List.map_append]
    simp [ht]
  · show q'.dataOf q.head ≠ none
    rw [hdata]
    exact hs.holds.alive
  · show q.enqueued ++ (q.dataOf a).toList = q.dequeued.map Prod.snd ++ (v ++ [t])
    rw [hs.holds.fifo, ht, List.append_assoc]
    rfl
  · intro hnone
    have hc := hnone c
    rw [goesOn_threads_self] at hc
    cases hc
  · refine ThreadOk.goesOn ?_ c _
    show q'.ThreadOk _ _ d (Function.update q.threads c (.moving a) d)
    by_cases hd : d = c
    · subst hd
      rw [Function.update_self]
      refine ⟨h.tail, h.head, ?_, ?_, ?_, ?_, ?_, h.taken⟩
      · rintro b ⟨⟩
      · rintro b ⟨⟩
      · rintro b ⟨⟩
        exact List.getLast?_concat (l := q.head :: l)
      · rintro b ⟨⟩
      · rintro b ⟨⟩
    · rw [Function.update_of_ne hd]
      have hd' := hs.threads d
      refine ⟨hd'.tail, hd'.head, fun b hb => ?_, fun b hb => ?_, fun b hb => ?_,
        fun b hb => by rw [List.head?_append, hd'.first b hb, Option.some_or],
        fun b hb => by rw [List.head?_append, hd'.item b hb, Option.some_or], hd'.taken⟩
      · have hb' := hd'.owns b (QueueThread.owns_of_fresh hb)
        rw [hnext b fun heq => hb'.2 (heq ▸ hmem)]
        exact hd'.fresh b hb
      · obtain ⟨hb₁, hb₂⟩ := hd'.owns b hb
        rw [hdata]
        refine ⟨hb₁, fun hin => ?_⟩
        rcases List.mem_append.1 (show b ∈ (q.head :: l) ++ [a] from hin) with hin | hin
        · exact hb₂ hin
        · obtain rfl := List.mem_singleton.1 hin
          exact hs.not_owns howns d hd hb
      · -- the other thread would hold the mutex of the tail
        have hdo := hd'.tail.1 (QueueThread.holdsTail_of_linked hb)
        exact absurd (Option.some.inj (hdo.symm.trans (h.tail.1 rfl))) hd
  · have hold : ∀ d b, ((q'.goesOn c (.moving a)).threads d).owns = some b →
        (q.threads d).owns = some b := by
      intro d b hb
      by_cases hd : d = c
      · subst hd
        rw [goesOn_threads_self] at hb
        cases hb
      · rwa [goesOn_threads_of_ne hd] at hb
    exact fun d e b hd he => hs.apart d e b (hold d b hd) (hold e b he)

/-- The head pointer is updated. -/
lemma Sound.advance (hs : q.Sound l v) {a : ℕ} {t : τ} (hthread : q.threads c = .copied a t) :
    ∃ l' v', v = t :: v' ∧
      ({ q with head := a, dequeued := q.dequeued ++ [(c, t)] }.goesOn c
        (.unlocking q.head t)).Sound l' v' := by
  have h := hs.threads c
  rw [hthread] at h
  -- the thread has found the first node, and has copied its item
  obtain ⟨l', rfl⟩ : ∃ l', l = a :: l' := by
    have hfirst := h.first a rfl
    cases l with
    | nil => cases hfirst
    | cons b l' =>
      obtain rfl : b = a := Option.some.inj hfirst
      exact ⟨l', rfl⟩
  obtain ⟨v', rfl⟩ : ∃ v', v = t :: v' := by
    have hitem := h.item t rfl
    cases v with
    | nil => cases hitem
    | cons t' v' =>
      obtain rfl : t' = t := Option.some.inj hitem
      exact ⟨v', rfl⟩
  refine ⟨l', v', rfl, ?_⟩
  have hnodup := List.nodup_cons.1 hs.holds.nodup
  have hothers : ∀ d, d ≠ c → (q.threads d).owns ≠ some q.head := fun d _ hd =>
    ((hs.threads d).owns _ hd).2 List.mem_cons_self
  -- no other thread is between finding a node and taking it
  have hhead : ∀ d, d ≠ c → (q.threads d).holdsHead ≠ true := by
    intro d hd hholds
    have hdo := (hs.threads d).head.1 hholds
    exact hd (Option.some.inj (hdo.symm.trans (h.head.1 rfl)))
  refine ⟨⟨hs.holds.linked.2, (List.cons.inj hs.holds.data).2,
    hs.holds.dataOf_ne_none (a := a) (by simp), ?_, hs.holds.safe⟩, fun hnone => ?_, fun d => ?_, ?_⟩
  · show q.enqueued = (q.dequeued ++ [(c, t)]).map Prod.snd ++ v'
    rw [hs.holds.fifo]
    simp
  · show (a :: l').getLast? = some q.tail
    have hlast := hs.tail fun d => by
      by_cases hd : d = c
      · subst hd
        rw [hthread]
        rfl
      · have hd' := hnone d
        rwa [goesOn_threads_of_ne hd] at hd'
    rwa [List.getLast?_cons_cons] at hlast
  · refine ThreadOk.goesOn ?_ c _
    show ThreadOk _ l' v' d (Function.update q.threads c (.unlocking q.head t) d)
    by_cases hd : d = c
    · subst hd
      rw [Function.update_self]
      refine ⟨h.tail, h.head, ?_, ?_, ?_, ?_, ?_, ?_⟩
      · rintro b ⟨⟩
      · rintro b ⟨⟩
        exact ⟨hs.holds.alive, hnodup.1⟩
      · rintro b ⟨⟩
      · rintro b ⟨⟩
      · rintro b ⟨⟩
      · show ((q.dequeued ++ [(d, t)]).filter _).map Prod.snd = q.results d ++ [t]
        have htaken := h.taken
        rw [List.filter_append, List.map_append, htaken]
        simp [QueueThread.taken]
    · rw [Function.update_of_ne hd]
      have hd' := hs.threads d
      refine ⟨hd'.tail, hd'.head, hd'.fresh, fun b hb => ?_, fun b hb => ?_, fun b hb => ?_,
        fun b hb => ?_, ?_⟩
      · obtain ⟨hb₁, hb₂⟩ := hd'.owns b hb
        exact ⟨hb₁, fun hin => hb₂ (List.mem_cons_of_mem _ hin)⟩
      · have hlast := hd'.linked b hb
        rwa [List.getLast?_cons_cons] at hlast
      · exact absurd (QueueThread.holdsHead_of_first hb) (hhead d hd)
      · exact absurd (QueueThread.holdsHead_of_item hb) (hhead d hd)
      · show ((q.dequeued ++ [(c, t)]).filter _).map Prod.snd = _
        rw [List.filter_append, List.map_append, hd'.taken]
        simp [Ne.symm hd]
  · intro d e b hd he
    by_cases hdc : d = c
    · subst hdc
      rw [goesOn_threads_self] at hd
      obtain rfl : q.head = b := Option.some.inj hd
      by_contra hde
      rw [goesOn_threads_of_ne (Ne.symm hde)] at he
      exact hothers e (Ne.symm hde) he
    · rw [goesOn_threads_of_ne hdc] at hd
      by_cases hec : e = c
      · subst hec
        rw [goesOn_threads_self] at he
        obtain rfl : q.head = b := Option.some.inj he
        exact absurd hd (hothers d hdc)
      · rw [goesOn_threads_of_ne hec] at he
        exact hs.apart d e b hd he

/-! ### The size -/

/-- The size is the number of the items, but for the threads that have linked or taken one and not
counted it yet. -/
def Sized (q : TwoLockQueue τ) (v : List τ) : Prop :=
  ∃ linking taking : ℕ, NumberOf QueueThread.uncounted q.threads linking ∧
    NumberOf (fun s => s.taken.isSome) q.threads taking ∧
    q.size = v.length - linking + taking

lemma Sized.next (h : q.Sized v) {q' : TwoLockQueue τ} {v' : List τ} (hthread : q.threads c = s')
    (hthreads : q'.threads = Function.update q.threads c s)
    (hsize : q'.size + v.length + s.uncounted.toNat + s'.taken.isSome.toNat =
      q.size + v'.length + s'.uncounted.toNat + s.taken.isSome.toNat) : q'.Sized v' := by
  subst hthread
  obtain ⟨linking, taking, hlinking, htaking, heq⟩ := h
  obtain ⟨linking', hlinking', hcard⟩ := hlinking.update c s
  obtain ⟨taking', htaking', hcard'⟩ := htaking.update c s
  refine ⟨linking', taking', ?_, ?_, by omega⟩
  · rw [hthreads]
    exact hlinking'
  · rw [hthreads]
    exact htaking'

/-- The number of threads that hold the mutex of the tail is one at most. -/
lemma Sound.linking_le_one (hs : q.Sound l v) {linking : ℕ}
    (hlinking : NumberOf QueueThread.uncounted q.threads linking) : linking ≤ 1 := by
  have howner : ∀ c, (q.threads c).uncounted = true → q.tailOwner = some c := fun c hc =>
    (hs.threads c).tail.1 (QueueThread.holdsTail_of_uncounted hc)
  exact hlinking.le_one_iff.2 fun c d hc hd =>
    Option.some.inj ((howner c hc).symm.trans (howner d hd))

/-- The next step of a thread. -/
lemma Sound.go (hs : q.Sound l v) (hsize : q.Sized v) {maxSize : ℕ} {q' : TwoLockQueue τ}
    (hgo : q.go maxSize c = some q') : ∃ l' v', q'.Sound l' v' ∧ q'.Sized v' := by
  have h := hs.threads c
  cases hthread : q.threads c with
  | idle => simp [TwoLockQueue.go, hthread] at hgo
  | testing t =>
    simp only [TwoLockQueue.go, hthread, Option.ite_none_right_eq_some] at hgo
    obtain ⟨-, ⟨⟩⟩ := hgo
    have hmove := hs.move (s := .creating t) hthread ⟨rfl, rfl, rfl, rfl, rfl, rfl⟩ q.size rfl rfl
    exact ⟨l, v, hmove, hsize.next hthread rfl rfl⟩
  | creating t => simp [TwoLockQueue.go, hthread] at hgo
  | created a =>
    simp only [TwoLockQueue.go, hthread] at hgo
    have hlock := hs.lockTail hthread hgo ⟨rfl, rfl, rfl, rfl, rfl, rfl⟩ rfl rfl
    obtain ⟨-, ⟨⟩⟩ := Option.ite_none_right_eq_some.1 hgo
    exact ⟨l, v, hlock, hsize.next hthread rfl rfl⟩
  | numbering a =>
    simp only [TwoLockQueue.go, hthread, Option.some.injEq] at hgo
    obtain ⟨node, hnode, heq⟩ := access_eq (h.owns a (by rw [hthread]; rfl)).1 _
    rw [heq] at hgo
    subst hgo
    exact ⟨l, v, hs.number hthread _ _ hnode, hsize.next hthread rfl rfl⟩
  | linking a =>
    simp only [TwoLockQueue.go, hthread, Option.some.injEq] at hgo
    have hlast := hs.tail_eq (c := c) (by rw [hthread]; rfl) (by rw [hthread]; rfl)
    have halive := hs.holds.dataOf_ne_none (List.mem_of_getLast? hlast)
    obtain ⟨node, hnode, heq⟩ := access_eq halive _
    rw [heq] at hgo
    subst hgo
    obtain ⟨t, hlink⟩ := hs.link hthread hnode
    refine ⟨l ++ [a], v ++ [t], hlink, hsize.next hthread rfl ?_⟩
    rw [List.length_append]
    simp [setNode, TwoLockQueue.goesOn, QueueThread.uncounted, QueueThread.taken]
    omega
  | moving a =>
    simp only [TwoLockQueue.go, hthread, Option.some.injEq] at hgo
    subst hgo
    exact ⟨l, v, hs.moveTail hthread, hsize.next hthread rfl rfl⟩
  | counting =>
    simp only [TwoLockQueue.go, hthread, Option.some.injEq] at hgo
    subst hgo
    have hmove := hs.move (s := .pushed) hthread ⟨rfl, rfl, rfl, rfl, rfl, rfl⟩ (q.size + 1) rfl rfl
    refine ⟨l, v, hmove, hsize.next hthread rfl ?_⟩
    simp [TwoLockQueue.goesOn, QueueThread.uncounted, QueueThread.taken]
    omega
  | pushed =>
    simp only [TwoLockQueue.go, hthread, Option.some.injEq] at hgo
    subst hgo
    have hunlock := hs.unlockTail (s := .idle) hthread ⟨rfl, rfl, rfl, rfl, rfl, rfl⟩ rfl rfl rfl
    exact ⟨l, v, hunlock, hsize.next hthread rfl rfl⟩
  | restarting =>
    simp only [TwoLockQueue.go, hthread, Option.some.injEq] at hgo
    subst hgo
    have hmove := hs.move (s := .locking true) hthread ⟨rfl, rfl, rfl, rfl, rfl, rfl⟩ q.size rfl rfl
    exact ⟨l, v, hmove, hsize.next hthread rfl rfl⟩
  | locking waits =>
    simp only [TwoLockQueue.go, hthread] at hgo
    have hlock := hs.lockHead hthread hgo ⟨rfl, rfl, rfl, rfl, rfl, rfl⟩ rfl rfl
    obtain ⟨-, ⟨⟩⟩ := Option.ite_none_right_eq_some.1 hgo
    exact ⟨l, v, hlock, hsize.next hthread rfl rfl⟩
  | reading waits =>
    simp only [TwoLockQueue.go, hthread, Option.some.injEq] at hgo
    obtain ⟨node, hnode, heq⟩ := access_eq hs.holds.alive _
    rw [heq] at hgo
    subst hgo
    cases hnext : node.next with
    | none =>
      have hmove := hs.move (s := .empty waits) hthread ⟨rfl, rfl, rfl, rfl, rfl, rfl⟩ q.size rfl rfl
      exact ⟨l, v, hmove, hsize.next hthread rfl rfl⟩
    | some a =>
      exact ⟨l, v, hs.find hthread ((nextOf_eq hnode).trans hnext), hsize.next hthread rfl rfl⟩
  | empty waits =>
    simp only [TwoLockQueue.go, hthread, Option.some.injEq] at hgo
    obtain ⟨node, hnode, heq⟩ := access_eq hs.holds.alive _
    rw [heq] at hgo
    subst hgo
    have hmove := hs.move (s := .leaving waits node.version) hthread
      ⟨rfl, rfl, rfl, rfl, rfl, rfl⟩ q.size rfl rfl
    exact ⟨l, v, hmove, hsize.next hthread rfl rfl⟩
  | leaving waits version =>
    simp only [TwoLockQueue.go, hthread, Option.some.injEq] at hgo
    subst hgo
    cases waits with
    | true =>
      have hunlock := hs.unlockHead (s := .checking version) hthread
        ⟨rfl, rfl, rfl, rfl, rfl, rfl⟩ rfl rfl rfl
      exact ⟨l, v, hunlock, hsize.next hthread rfl rfl⟩
    | false =>
      have hunlock := hs.unlockHead (s := .idle) hthread ⟨rfl, rfl, rfl, rfl, rfl, rfl⟩ rfl rfl rfl
      exact ⟨l, v, hunlock, hsize.next hthread rfl rfl⟩
  | found a =>
    simp only [TwoLockQueue.go, hthread, Option.some.injEq] at hgo
    have hfirst := h.first a (by rw [hthread]; rfl)
    have halive := hs.holds.dataOf_ne_none (List.mem_cons_of_mem _ (List.mem_of_head? hfirst))
    obtain ⟨node, hnode, heq⟩ := access_eq halive _
    rw [heq] at hgo
    subst hgo
    exact ⟨l, v, hs.copy hthread (dataOf_eq hnode), hsize.next hthread rfl rfl⟩
  | copied a t =>
    simp only [TwoLockQueue.go, hthread, Option.some.injEq] at hgo
    subst hgo
    obtain ⟨l', v', rfl, hadvance⟩ := hs.advance hthread
    refine ⟨l', v', hadvance, hsize.next hthread rfl ?_⟩
    rw [List.length_cons]
    simp [TwoLockQueue.goesOn, QueueThread.uncounted, QueueThread.taken]
    omega
  | unlocking old t =>
    simp only [TwoLockQueue.go, hthread, Option.some.injEq] at hgo
    subst hgo
    have hunlock := hs.unlockHead (s := .destroying old t) hthread
      ⟨rfl, rfl, rfl, rfl, rfl, rfl⟩ rfl rfl rfl
    exact ⟨l, v, hunlock, hsize.next hthread rfl rfl⟩
  | destroying old t =>
    simp only [TwoLockQueue.go, hthread, Option.some.injEq] at hgo
    obtain ⟨node, hnode, heq⟩ := access_eq (h.owns old (by rw [hthread]; rfl)).1 _
    rw [heq] at hgo
    subst hgo
    exact ⟨l, v, hs.destroyNode hthread, hsize.next hthread rfl rfl⟩
  | decrementing t =>
    simp only [TwoLockQueue.go, hthread, Option.some.injEq] at hgo
    subst hgo
    refine ⟨l, v, hs.decrement hthread (q.size - 1), hsize.next hthread rfl ?_⟩
    simp [TwoLockQueue.goesOn, QueueThread.uncounted, QueueThread.taken]
    omega
  | checking version =>
    simp only [TwoLockQueue.go, hthread] at hgo
    have hlock := hs.lockTail hthread hgo ⟨rfl, rfl, rfl, rfl, rfl, rfl⟩ rfl rfl
    obtain ⟨-, ⟨⟩⟩ := Option.ite_none_right_eq_some.1 hgo
    exact ⟨l, v, hlock, hsize.next hthread rfl rfl⟩
  | comparing version =>
    simp only [TwoLockQueue.go, hthread, Option.some.injEq] at hgo
    have hlast := hs.tail_eq (c := c) (by rw [hthread]; rfl) (by rw [hthread]; rfl)
    have halive := hs.holds.dataOf_ne_none (List.mem_of_getLast? hlast)
    obtain ⟨node, hnode, heq⟩ := access_eq halive _
    rw [heq] at hgo
    subst hgo
    by_cases hversion : node.version = version
    · rw [if_pos hversion]
      have hunlock := hs.unlockTail (s := .waiting) hthread ⟨rfl, rfl, rfl, rfl, rfl, rfl⟩ rfl rfl rfl
      exact ⟨l, v, hunlock, hsize.next hthread rfl rfl⟩
    · rw [if_neg hversion]
      have hmove := hs.move (s := .released) hthread ⟨rfl, rfl, rfl, rfl, rfl, rfl⟩ q.size rfl rfl
      exact ⟨l, v, hmove, hsize.next hthread rfl rfl⟩
  | waiting =>
    simp only [TwoLockQueue.go, hthread] at hgo
    have hlock := hs.lockTail hthread hgo ⟨rfl, rfl, rfl, rfl, rfl, rfl⟩ rfl rfl
    obtain ⟨-, ⟨⟩⟩ := Option.ite_none_right_eq_some.1 hgo
    exact ⟨l, v, hlock, hsize.next hthread rfl rfl⟩
  | released =>
    simp only [TwoLockQueue.go, hthread, Option.some.injEq] at hgo
    subst hgo
    have hunlock := hs.unlockTail (s := .restarting) hthread
      ⟨rfl, rfl, rfl, rfl, rfl, rfl⟩ rfl rfl rfl
    exact ⟨l, v, hunlock, hsize.next hthread rfl rfl⟩

/-- What the steps keep. -/
def Inv (q : TwoLockQueue τ) : Prop := ∃ l v, q.Sound l v ∧ q.Sized v

lemma Inv.next (h : q.Inv) {maxSize : ℕ} {e : QueueStep τ} {q' : TwoLockQueue τ}
    (hstep : step maxSize q e = some q') : q'.Inv := by
  obtain ⟨l, v, hs, hsize⟩ := h
  cases e with
  | push c t =>
    cases hthread : q.threads c <;> simp only [step, hthread, reduceCtorEq] at hstep
    obtain rfl := Option.some.inj hstep
    have hmove := hs.move (s := .testing t) hthread ⟨rfl, rfl, rfl, rfl, rfl, rfl⟩ q.size rfl rfl
    exact ⟨l, v, hmove, hsize.next hthread rfl rfl⟩
  | pop c waits =>
    cases hthread : q.threads c <;> simp only [step, hthread, reduceCtorEq] at hstep
    obtain rfl := Option.some.inj hstep
    cases waits with
    | true =>
      have hmove := hs.move (s := .restarting) hthread ⟨rfl, rfl, rfl, rfl, rfl, rfl⟩ q.size rfl rfl
      exact ⟨l, v, hmove, hsize.next hthread rfl rfl⟩
    | false =>
      have hmove := hs.move (s := .locking false) hthread ⟨rfl, rfl, rfl, rfl, rfl, rfl⟩ q.size
        rfl rfl
      exact ⟨l, v, hmove, hsize.next hthread rfl rfl⟩
  | createNode c a =>
    cases hthread : q.threads c <;> simp only [step, hthread, reduceCtorEq] at hstep
    cases hnode : q.nodes a <;> simp only [hnode, reduceCtorEq] at hstep
    obtain rfl := Option.some.inj hstep
    exact ⟨l, v, hs.createNode hthread hnode, hsize.next hthread rfl rfl⟩
  | stop c =>
    cases hthread : q.threads c <;> simp only [step, hthread, reduceCtorEq] at hstep
    obtain rfl := Option.some.inj hstep
    have hmove := hs.move (s := .idle) hthread ⟨rfl, rfl, rfl, rfl, rfl, rfl⟩ q.size rfl rfl
    exact ⟨l, v, hmove, hsize.next hthread rfl rfl⟩
  | go c =>
    obtain ⟨l', v', hs', hsize'⟩ := hs.go hsize hstep
    exact ⟨l', v', hs', hsize'⟩

lemma inv_start (dummy : τ) : (start dummy).Inv := by
  refine ⟨[], [], ⟨⟨rfl, rfl, by simp [start, dataOf], rfl, rfl⟩, fun _ => rfl, fun c => ?_, ?_⟩,
    0, 0, numberOf_zero fun _ => rfl, numberOf_zero fun _ => rfl, rfl⟩
  · refine ⟨by simp [start, QueueThread.holdsTail], by simp [start, QueueThread.holdsHead], ?_, ?_,
      ?_, ?_, ?_, rfl⟩ <;> rintro a ⟨⟩
  · rintro c d a ⟨⟩

/-- An access changes the size only in what is done with the node. -/
lemma size_access {a : ℕ} {f : QueueNode τ → TwoLockQueue τ} (hf : ∀ node, (f node).size = q.size) :
    (q.access a f).size = q.size := by
  rw [access]
  split
  · rfl
  · exact hf _

lemma size_go {maxSize : ℕ} {q' : TwoLockQueue τ} (hgo : q.go maxSize c = some q') :
    q'.size = match q.threads c with
      | .counting => q.size + 1
      | .decrementing _ => q.size - 1
      | _ => q.size := by
  cases hthread : q.threads c <;>
    simp only [TwoLockQueue.go, hthread, lockTail, lockHead, reduceCtorEq,
      Option.ite_none_right_eq_some, Option.some.injEq] at hgo
  case reading waits =>
    subst hgo
    refine size_access fun node => ?_
    cases node.next <;> rfl
  case comparing version =>
    subst hgo
    refine size_access fun node => ?_
    split_ifs <;> rfl
  all_goals first
    | (obtain ⟨-, rfl⟩ := hgo; rfl)
    | exact hgo ▸ rfl
    | exact hgo ▸ size_access fun _ => rfl

/-- Only the consumers count down. -/
lemma size_next {maxSize : ℕ} {e : QueueStep τ} {q' : TwoLockQueue τ}
    (hstep : step maxSize q e = some q') :
    q.size ≤ q'.size ∨ ∃ c t, e = .go c ∧ q.threads c = .decrementing t ∧ q'.size = q.size - 1 := by
  cases e with
  | push c t =>
    cases hthread : q.threads c <;> simp only [step, hthread, reduceCtorEq] at hstep
    obtain rfl := Option.some.inj hstep
    exact Or.inl le_rfl
  | pop c waits =>
    cases hthread : q.threads c <;> simp only [step, hthread, reduceCtorEq] at hstep
    obtain rfl := Option.some.inj hstep
    exact Or.inl le_rfl
  | createNode c a =>
    cases hthread : q.threads c <;> simp only [step, hthread, reduceCtorEq] at hstep
    cases hnode : q.nodes a <;> simp only [hnode, reduceCtorEq] at hstep
    obtain rfl := Option.some.inj hstep
    exact Or.inl le_rfl
  | stop c =>
    cases hthread : q.threads c <;> simp only [step, hthread, reduceCtorEq] at hstep
    obtain rfl := Option.some.inj hstep
    exact Or.inl le_rfl
  | go c =>
    have hsize := size_go hstep
    cases hthread : q.threads c with
    | decrementing t =>
      rw [hthread] at hsize
      exact Or.inr ⟨c, t, rfl, hthread, hsize⟩
    | counting =>
      rw [hthread] at hsize
      have hcount : q'.size = q.size + 1 := hsize
      exact Or.inl (by omega)
    | _ =>
      rw [hthread] at hsize
      exact Or.inl hsize.ge

/-! ### Whole runs -/

/-- A consumer that has taken the last item counts it before its producer does. -/
def Overtakes (q : TwoLockQueue τ) (c : ℕ) : Prop :=
  (∃ t, q.threads c = .decrementing t) ∧ q.nextOf q.head = none ∧
    (∃ p, (q.threads p).uncounted = true) ∧ ∀ d, (q.threads d).taken.isSome = true → d = c

def InOrder (e : QueueStep τ) (q : TwoLockQueue τ) : Prop :=
  match e with
  | .go c => ¬ q.Overtakes c
  | .push _ _ | .pop _ _ | .createNode _ _ | .stop _ => True

/-- What the queue is to be: a list of the items that were linked and not taken, of which no
destroyed node is used and each taken item is returned once, with its size. -/
structure Fifo (q : TwoLockQueue τ) : Prop where
  items : ∃ l v, q.Holds l v ∧ ((∀ c, q.threads c = .idle) → q.size = v.length)
  results : ∀ c, (q.dequeued.filter (·.1 = c)).map Prod.snd =
    q.results c ++ (q.threads c).taken.toList
  size : 0 ≤ q.size

lemma Inv.fifo (h : q.Inv) (hsize : 0 ≤ q.size) : q.Fifo := by
  obtain ⟨l, v, hs, linking, taking, hlinking, htaking, heq⟩ := h
  refine ⟨⟨l, v, hs.holds, fun hidle => ?_⟩, fun c => (hs.threads c).taken, hsize⟩
  rw [heq, hlinking.eq_zero fun c => by rw [hidle c]; rfl,
    htaking.eq_zero fun c => by rw [hidle c]; rfl]
  simp

/-- A consumer that counts down makes the size negative, if its item was the last one, no other
consumer has one, and the producer of an item has not counted it yet. -/
lemma Inv.overtakes_iff (h : q.Inv) {t : τ}
    (hthread : q.threads c = .decrementing t) : q.size = 0 ↔ q.Overtakes c := by
  obtain ⟨l, v, hs, linking, taking, hlinking, htaking, heq⟩ := h
  have hc : (q.threads c).taken.isSome = true := by
    rw [hthread]
    rfl
  have htakers : 0 < taking := htaking.pos hc
  have hlinkers : linking ≤ 1 := hs.linking_le_one hlinking
  have hempty : q.nextOf q.head = none ↔ v.length = 0 := by
    have hlength : l.length = v.length := by
      simpa using congrArg List.length hs.holds.data
    rw [← hlength]
    have hlinked := hs.holds.linked
    cases l with
    | nil => exact iff_of_true hlinked rfl
    | cons a l => simp [hlinked.1]
  constructor
  · intro hzero
    have hcards : v.length = 0 ∧ 0 < linking ∧ taking ≤ 1 := by omega
    obtain ⟨hv, hlinked, hone⟩ := hcards
    exact ⟨⟨t, hthread⟩, hempty.2 hv, hlinking.exists hlinked,
      fun d hd => htaking.le_one_iff.1 hone d c hd hc⟩
  · rintro ⟨-, hnext, ⟨p, hp⟩, honly⟩
    have hv := hempty.1 hnext
    have hone : taking ≤ 1 := htaking.le_one_iff.2 fun d e hd he =>
      (honly d hd).trans (honly e he).symm
    have hlinked : 0 < linking := hlinking.pos hp
    omega

/-- What a step does to the size. -/
lemma Inv.size_iff (h : q.Inv) (hpos : 0 ≤ q.size) {maxSize : ℕ} {e : QueueStep τ}
    {q' : TwoLockQueue τ} (hstep : step maxSize q e = some q') :
    0 ≤ q'.size ↔ InOrder e q := by
  rcases size_next hstep with hle | ⟨c, t, rfl, hthread, hsize⟩
  · refine iff_of_true (hpos.trans hle) ?_
    cases e with
    | go c =>
      rintro ⟨⟨t, hthread⟩, -⟩
      have hsize := size_go hstep
      rw [hthread] at hsize
      have hcount : q'.size = q.size - 1 := hsize
      omega
    | push c t => trivial
    | pop c waits => trivial
    | createNode c a => trivial
    | stop c => trivial
  · show _ ↔ ¬ q.Overtakes c
    rw [← h.overtakes_iff hthread]
    omega

/-- In a run of any producers and consumers, in any order of their steps, the queue is a list with
its size in every state, if and only if no consumer counts the last item before its producer. -/
theorem fifo_run (maxSize : ℕ) (dummy : τ) {q : TwoLockQueue τ} {es : List (QueueStep τ)}
    (h : run (step maxSize) (start dummy) es = some q) :
    (∀ u : TwoLockQueue τ, ReachedIn (step maxSize) (start dummy) es u → u.Fifo) ↔
      ∀ e u, HappensIn (step maxSize) (start dummy) es e u → InOrder e u := by
  have hboth := reached_iff (P := fun u : TwoLockQueue τ => u.Inv ∧ 0 ≤ u.size) (Q := InOrder)
    ⟨inv_start dummy, le_rfl⟩ (fun u e u' hu hstep =>
      (and_iff_right (hu.1.next hstep)).trans (hu.1.size_iff hu.2 hstep)) h
  rw [← hboth]
  constructor
  · rintro hall u ⟨before, after, heq, hu⟩
    refine ⟨?_, (hall u ⟨before, after, heq, hu⟩).size⟩
    exact run_invariant (fun v e v' hv hstep => hv.next hstep) (inv_start dummy) hu
  · exact fun hall u hu => (hall u hu).1.fifo (hall u hu).2

/-- Two items are pushed, and the node of the dummy is used again for the second one. -/
theorem fifo_run_two :
    let steps (c n : ℕ) : List (QueueStep ℕ) := List.replicate n (.go c)
    let events := [.push 0 5] ++ steps 0 1 ++ [.createNode 0 1] ++ steps 0 6 ++ [.pop 1 false] ++
      steps 1 7 ++ [.push 0 6] ++ steps 0 1 ++ [.createNode 0 0] ++ steps 0 6
    (run (step 9) (start 0) events).map (fun q => (q.enqueued, q.results 1, q.size)) =
        some ([5, 6], [5], 1) ∧
      ((∀ u, ReachedIn (step 9) (start 0) events u → u.Fifo) ↔
        ∀ e u, HappensIn (step 9) (start 0) events e u → InOrder e u) := by
  intro steps events
  have hrun : (run (step 9) (start 0) events).map (fun q => (q.enqueued, q.results 1, q.size)) =
      some ([5, 6], [5], 1) := by
    decide +kernel
  obtain ⟨q, hq, -⟩ := Option.map_eq_some_iff.1 hrun
  exact ⟨hrun, fifo_run 9 0 hq⟩

/-- A consumer takes an item between the step that links it and the one that counts it. -/
theorem fifo_run_fails :
    let steps (c n : ℕ) : List (QueueStep ℕ) := List.replicate n (.go c)
    (run (step 9) (start 0) ([.push 0 5] ++ steps 0 1 ++ [.createNode 0 1] ++ steps 0 3 ++
      [.pop 1 false] ++ steps 1 7)).map (fun q => (q.enqueued, q.results 1, q.size)) =
        some ([5], [5], -1) := by
  decide +kernel

end TwoLockQueue

end PionCore.Common
