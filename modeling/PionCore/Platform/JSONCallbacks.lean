/-
# Callbacks of nested JSON

The handlers of the JSON codec share a key and an object, and take every map of a document for an
event and the end of every array for that of the document.  They look up each key without asking
whether it is mapped, and let `read` stop at the end of an array within the document.  So a document
is read safely just when its keys are mapped, its values stand in objects, and no object ends behind
an array (`readsSafely_iff`).

What the parser makes of the buffers is given by the calls of the handlers, buffer by buffer.  The
context and the queue share their objects; where no values are nested, this is the same as to copy
them (`agrees_document`).
-/
import PionCore.Platform.JSONRoundTrip

namespace PionCore.Platform

open PionCore.Lib

/-- A value of JSON; numbers are given by their texts. -/
inductive JSON where
  | null
  | bool (b : Bool)
  | number (text : Bytes)
  | string (s : Bytes)
  | object (members : List (Bytes × JSON))
  | array (items : List JSON)

namespace JSON

mutual

/-- The calls of the handlers for a value, each with the key under which it is made: the one of the
innermost member that the value stands in. -/
def calls (key : Option Bytes) : JSON → List (Option Bytes × Callback)
  | .null | .bool _ => []
  | .number text => [(key, .number text)]
  | .string s => [(key, .string s)]
  | .object members => (key, .startMap) :: (memberCalls members ++ [(key, .endMap)])
  | .array items => (key, .startArray) :: (itemCalls key items ++ [(key, .endArray)])

def memberCalls : List (Bytes × JSON) → List (Option Bytes × Callback)
  | [] => []
  | (name, j) :: members =>
    (some name, .mapKey name) :: (calls (some name) j ++ memberCalls members)

def itemCalls (key : Option Bytes) : List JSON → List (Option Bytes × Callback)
  | [] => []
  | j :: items => calls key j ++ itemCalls key items

end

end JSON

namespace NestedJSON

open FieldCodec
open JSONCodec (fieldOfName fieldOfRef setValue setValues Filled jsonFields jsonCodec jsonEdits
  jsonConfig)
open LogCodec (signedDecimals)

/-- `Context`, with the objects that its pointers lead to. -/
structure Context where
  arrayStarted : Bool := false
  arrayEnded : Bool := false
  objects : List (List (ℕ × Bytes)) := []
  objectPtr : Option ℕ := none
  termRef : Option ℕ := none
  queue : List ℕ := []
deriving DecidableEq

variable (fs : List CodecField) (c : FieldCodec)

/-- The handlers; `none` is undefined behaviour. -/
def handler (k : Context) : Callback → Option Context
  | .number s | .string s =>
    k.objectPtr.bind fun p =>
      k.termRef.map fun ref => { k with objects := k.objects.modify p (· ++ [(ref, s)]) }
  | .mapKey s => (fieldOfName fs c s).map fun f => { k with termRef := some f.term.termRef }
  | .startMap =>
    some { k with
      objects := k.objects ++ [[]]
      objectPtr := some k.objects.length }
  | .endMap => k.objectPtr.map fun p => { k with queue := k.queue ++ [p] }
  | .startArray => some { k with arrayStarted := true }
  | .endArray => some { k with arrayEnded := true }

/-- The loop of `read`: a buffer of the stream has some calls made. -/
def fillQueue : List (List Callback) → Context → Option (Filled × Context × List (List Callback))
  | [], k =>
    if k.queue ≠ [] then some (.queued, k, [])
    else if k.arrayEnded then some (.eof, k, [])
    else some (.none, k, [])
  | block :: blocks, k =>
    if k.queue ≠ [] then some (.queued, k, block :: blocks)
    else if k.arrayEnded then some (.eof, k, block :: blocks)
    else (block.foldlM (handler fs c) k).bind fun k => fillQueue blocks k

/-- The context, and the buffers that are left in the stream. -/
structure Source where
  context : Context := {}
  blocks : List (List Callback)
deriving DecidableEq

variable {φ δ χ θ : Type*} (conv : LogConversions φ δ χ θ)
  (order : List (ℕ × Bytes) → List (ℕ × Bytes))

/-- `read`.  In front of the array, the next character is its bracket, if there is one. -/
def read (s : Source) : Option (JSONCodec.ReadResult φ δ χ θ × Source) :=
  if ¬ s.context.arrayStarted ∧ s.blocks = [] then some (.none, s)
  else
    (fillQueue fs c s.blocks s.context).bind fun q =>
      match q with
      | (.none, k, blocks) => some (.none, ⟨k, blocks⟩)
      | (.eof, k, blocks) => some (.eof, ⟨k, blocks⟩)
      | (.queued, k, blocks) =>
        (setValues conv fs c [] (order (k.objects.getD (k.queue.headD 0) []))).map fun r =>
          (r, ⟨{ k with queue := k.queue.tail }, blocks⟩)

/-- Some calls of `read`. -/
def readTimes : ℕ → Source → Option Source
  | 0, s => some s
  | n + 1, s => (read fs c conv order s).bind fun p => readTimes n p.2

/-! ### Safety -/

/-- A handler does not use a field or an object that is not set, and the term of a value is that of
its own key. -/
def SafeCall (key : Option Bytes) (k : Context) : Callback → Prop
  | .number _ | .string _ =>
    k.objectPtr ≠ none ∧ ∃ name f, key = some name ∧ fieldOfName fs c name = some f ∧
      k.termRef = some f.term.termRef
  | .mapKey s => fieldOfName fs c s ≠ none
  | .endMap => k.objectPtr ≠ none
  | .startMap | .startArray | .endArray => True

/-- Some calls are safe, and lead to a context with a property. -/
def Safely (post : Context → Prop) : Context → List (Option Bytes × Callback) → Prop
  | k, [] => post k
  | k, e :: l =>
    SafeCall fs c e.1 k e.2 ∧ ∃ k', handler fs c k e.2 = some k' ∧ Safely post k' l

/-- No object is left: none is in the queue, and none ends in the rest of the stream. -/
def AtEnd (s : Source) : Prop := s.context.queue = [] ∧ .endMap ∉ s.blocks.flatten

/-- Every call of `read` returns an event, returns that there is none at the end, or throws. -/
def Serves (s : Source) : Prop :=
  ∀ n, ∃ s₁ r s₂, readTimes fs c conv order n s = some s₁ ∧ read fs c conv order s₁ = some (r, s₂) ∧
    (r = .none ∨ r = .eof → AtEnd s₂)

/-- The calls of a document are safe, and so are those of `read`, however the document is cut into
buffers. -/
def ReadsSafely (items : List JSON) : Prop :=
  Safely fs c (fun _ => True) {} ((JSON.array items).calls none) ∧
    ∀ blocks : List (List Callback),
      blocks.flatten = ((JSON.array items).calls none).map Prod.snd →
        Serves fs c conv order ⟨{}, blocks⟩

/-- Every key is mapped, every number and every string stands in an object, and no object ends
behind the end of an array. -/
structure Digestible (items : List JSON) : Prop where
  known : ∀ e ∈ (JSON.array items).calls none, ∀ s, e.2 = .mapKey s → fieldOfName fs c s ≠ none
  keyed : ∀ e ∈ (JSON.array items).calls none, ∀ s, e.2 = .number s ∨ e.2 = .string s → e.1 ≠ none
  arrays : ((JSON.array items).calls none).Pairwise fun x y => x.2 = .endArray → y.2 ≠ .endMap

variable {fs c conv order} {k k' k₁ k₂ : Context} {l l' : List (Option Bytes × Callback)}
  {post : Context → Prop}

/-- What a call of a handler does. -/
lemma handler_cases {cb : Callback} (h : handler fs c k cb = some k') :
    (∃ s p ref, (cb = .number s ∨ cb = .string s) ∧ k.objectPtr = some p ∧ k.termRef = some ref ∧
      k' = { k with objects := k.objects.modify p (· ++ [(ref, s)]) }) ∨
    (∃ s f, cb = .mapKey s ∧ fieldOfName fs c s = some f ∧
      k' = { k with termRef := some f.term.termRef }) ∨
    (cb = .startMap ∧
      k' = { k with objects := k.objects ++ [[]], objectPtr := some k.objects.length }) ∨
    (∃ p, cb = .endMap ∧ k.objectPtr = some p ∧ k' = { k with queue := k.queue ++ [p] }) ∨
    (cb = .startArray ∧ k' = { k with arrayStarted := true }) ∨
    (cb = .endArray ∧ k' = { k with arrayEnded := true }) := by
  cases cb with
  | number s =>
    obtain ⟨p, hp, h⟩ := Option.bind_eq_some_iff.1 h
    obtain ⟨ref, href, rfl⟩ := Option.map_eq_some_iff.1 h
    exact Or.inl ⟨s, p, ref, Or.inl rfl, hp, href, rfl⟩
  | string s =>
    obtain ⟨p, hp, h⟩ := Option.bind_eq_some_iff.1 h
    obtain ⟨ref, href, rfl⟩ := Option.map_eq_some_iff.1 h
    exact Or.inl ⟨s, p, ref, Or.inr rfl, hp, href, rfl⟩
  | mapKey s =>
    obtain ⟨f, hf, rfl⟩ := Option.map_eq_some_iff.1 h
    exact Or.inr (Or.inl ⟨s, f, rfl, hf, rfl⟩)
  | startMap => exact Or.inr (Or.inr (Or.inl ⟨rfl, (Option.some.inj h).symm⟩))
  | endMap =>
    obtain ⟨p, hp, rfl⟩ := Option.map_eq_some_iff.1 h
    exact Or.inr (Or.inr (Or.inr (Or.inl ⟨p, rfl, hp, rfl⟩)))
  | startArray =>
    exact Or.inr (Or.inr (Or.inr (Or.inr (Or.inl ⟨rfl, (Option.some.inj h).symm⟩))))
  | endArray =>
    exact Or.inr (Or.inr (Or.inr (Or.inr (Or.inr ⟨rfl, (Option.some.inj h).symm⟩))))

/-! ### Safe calls -/

lemma safely_append : Safely fs c post k (l ++ l') ↔
    Safely fs c (fun k => Safely fs c post k l') k l := by
  induction l generalizing k with
  | nil => exact Iff.rfl
  | cons e l ih =>
    rw [List.cons_append, Safely, Safely]
    exact and_congr_right fun _ => exists_congr fun k' => and_congr_right fun _ => ih

lemma Safely.mono {post' : Context → Prop} (h : Safely fs c post k l)
    (hpost : ∀ k, post k → post' k) : Safely fs c post' k l := by
  induction l generalizing k with
  | nil => exact hpost k h
  | cons e l ih =>
    obtain ⟨hsafe, k', hk', h⟩ := h
    exact ⟨hsafe, k', hk', ih h⟩

/-- The calls within an object: no array ends, and the keys are mapped. -/
def Flat (fs : List CodecField) (c : FieldCodec) (l : List (Option Bytes × Callback)) : Prop :=
  ∀ e ∈ l, e.2 ≠ .endArray ∧ ∀ s, e.2 = .mapKey s → fieldOfName fs c s ≠ none

mutual

/-- A value under a key that has just been read. -/
theorem safely_value : ∀ (j : JSON) (name : Bytes) (f : CodecField) (k : Context),
    fieldOfName fs c name = some f → k.objectPtr ≠ none → k.termRef = some f.term.termRef →
      Flat fs c (j.calls (some name)) →
        Safely fs c (fun k => k.objectPtr ≠ none) k (j.calls (some name))
  | .null, name, f, k, hf, hptr, href, hflat => hptr
  | .bool b, name, f, k, hf, hptr, href, hflat => hptr
  | .number text, name, f, k, hf, hptr, href, hflat => by
    obtain ⟨p, hp⟩ := Option.ne_none_iff_exists'.1 hptr
    refine ⟨⟨hptr, name, f, rfl, hf, href⟩,
      { k with objects := k.objects.modify p (· ++ [(f.term.termRef, text)]) }, ?_, hptr⟩
    rw [handler, hp, href]
    rfl
  | .string s, name, f, k, hf, hptr, href, hflat => by
    obtain ⟨p, hp⟩ := Option.ne_none_iff_exists'.1 hptr
    refine ⟨⟨hptr, name, f, rfl, hf, href⟩,
      { k with objects := k.objects.modify p (· ++ [(f.term.termRef, s)]) }, ?_, hptr⟩
    rw [handler, hp, href]
    rfl
  | .object members, name, f, k, hf, hptr, href, hflat => by
    rw [JSON.calls] at hflat ⊢
    refine ⟨trivial, _, rfl, ?_⟩
    rw [safely_append]
    have hmembers := safely_members members { k with
      objects := k.objects ++ [[]]
      objectPtr := some k.objects.length } (by simp) fun e he =>
        hflat e (List.mem_cons_of_mem _ (List.mem_append_left _ he))
    refine hmembers.mono fun k hptr => ?_
    obtain ⟨p, hp⟩ := Option.ne_none_iff_exists'.1 hptr
    exact ⟨hptr, { k with queue := k.queue ++ [p] }, by rw [handler, hp]; rfl, hptr⟩
  | .array items, name, f, k, hf, hptr, href, hflat => by
    rw [JSON.calls] at hflat
    exact absurd rfl (hflat (some name, .endArray) (by simp)).1

theorem safely_members : ∀ (members : List (Bytes × JSON)) (k : Context),
    k.objectPtr ≠ none → Flat fs c (JSON.memberCalls members) →
      Safely fs c (fun k => k.objectPtr ≠ none) k (JSON.memberCalls members)
  | [], k, hptr, hflat => hptr
  | (name, j) :: members, k, hptr, hflat => by
    rw [JSON.memberCalls] at hflat ⊢
    obtain ⟨hkey, hrest⟩ := List.forall_mem_cons.1 hflat
    obtain ⟨f, hf⟩ := Option.ne_none_iff_exists'.1 (hkey.2 name rfl)
    refine ⟨hkey.2 name rfl, { k with termRef := some f.term.termRef }, ?_, ?_⟩
    · rw [handler, hf]
      rfl
    rw [safely_append]
    have hvalue := safely_value j name f { k with termRef := some f.term.termRef } hf hptr rfl
      fun e he => hrest e (List.mem_append_left _ he)
    exact hvalue.mono fun k hptr => safely_members members k hptr fun e he =>
      hrest e (List.mem_append_right _ he)

end

/-- What is asked of the calls of a document. -/
structure Orderly (fs : List CodecField) (c : FieldCodec) (l : List (Option Bytes × Callback)) :
    Prop where
  known : ∀ e ∈ l, ∀ s, e.2 = .mapKey s → fieldOfName fs c s ≠ none
  keyed : ∀ e ∈ l, ∀ s, e.2 = .number s ∨ e.2 = .string s → e.1 ≠ none
  arrays : l.Pairwise fun x y => x.2 = .endArray → y.2 ≠ .endMap

lemma Orderly.sublist (h : Orderly fs c l) (hl : l'.Sublist l) : Orderly fs c l' where
  known e he := h.known e (hl.subset he)
  keyed e he := h.keyed e (hl.subset he)
  arrays := h.arrays.sublist hl

mutual

/-- A value that stands in no object. -/
theorem safely_item : ∀ (j : JSON) (k : Context), Orderly fs c (j.calls none) →
    Safely fs c (fun _ => True) k (j.calls none)
  | .null, k, h => trivial
  | .bool b, k, h => trivial
  | .number text, k, h =>
    absurd rfl (h.keyed (none, .number text) List.mem_cons_self text (Or.inl rfl))
  | .string s, k, h =>
    absurd rfl (h.keyed (none, .string s) List.mem_cons_self s (Or.inr rfl))
  | .object members, k, h => by
    rw [JSON.calls] at h ⊢
    refine ⟨trivial, _, rfl, ?_⟩
    rw [safely_append]
    have hflat : Flat fs c (JSON.memberCalls members) := by
      intro e he
      refine ⟨fun hend => ?_, h.known e (List.mem_cons_of_mem _ (List.mem_append_left _ he))⟩
      -- the end of the object is behind the end of the array
      have hpairs := (List.pairwise_append.1 (List.pairwise_cons.1 h.arrays).2).2.2
      exact hpairs e he _ (List.mem_singleton_self _) hend rfl
    have hmembers := safely_members members { k with
      objects := k.objects ++ [[]]
      objectPtr := some k.objects.length } (by simp) hflat
    refine hmembers.mono fun k hptr => ?_
    obtain ⟨p, hp⟩ := Option.ne_none_iff_exists'.1 hptr
    exact ⟨hptr, { k with queue := k.queue ++ [p] }, by rw [handler, hp]; rfl, trivial⟩
  | .array items, k, h => by
    rw [JSON.calls] at h ⊢
    refine ⟨trivial, _, rfl, ?_⟩
    rw [safely_append]
    have hitems := safely_items items { k with arrayStarted := true }
      (h.sublist ((List.sublist_append_left _ _).trans (List.sublist_cons_self _ _)))
    exact hitems.mono fun k _ => ⟨trivial, _, rfl, trivial⟩

theorem safely_items : ∀ (items : List JSON) (k : Context),
    Orderly fs c (JSON.itemCalls none items) →
      Safely fs c (fun _ => True) k (JSON.itemCalls none items)
  | [], k, h => trivial
  | j :: items, k, h => by
    rw [JSON.itemCalls] at h ⊢
    rw [safely_append]
    exact (safely_item j k (h.sublist (List.sublist_append_left _ _))).mono fun k _ =>
      safely_items items k (h.sublist (List.sublist_append_right _ _))

end

/-! ### Copies of the objects -/

/-- The context that has its objects itself. -/
def Context.copied (k : Context) : JSONCodec.Context where
  arrayStarted := k.arrayStarted
  arrayEnded := k.arrayEnded
  object := k.objectPtr.bind fun p => k.objects[p]?
  termRef := k.termRef
  queue := k.queue.map fun p => k.objects.getD p []

/-- The pointers lead to objects. -/
structure Context.Pointing (k : Context) : Prop where
  object : ∀ p, k.objectPtr = some p → p < k.objects.length
  queue : ∀ p ∈ k.queue, p < k.objects.length

/-- The object is not queued, so that nothing else leads to it. -/
def Context.Owning (k : Context) : Prop := ∀ p, k.objectPtr = some p → p ∉ k.queue

/-- Some calls do the same to a context and to its copy, and lead to a context with a property. -/
def Agrees (fs : List CodecField) (c : FieldCodec) (post : Context → Prop) (k : Context)
    (calls : List Callback) : Prop :=
  match calls.foldlM (handler fs c) k with
  | some k' => calls.foldlM (JSONCodec.handler fs c) k.copied = some k'.copied ∧ post k'
  | none => calls.foldlM (JSONCodec.handler fs c) k.copied = none

lemma Agrees.append {calls calls' : List Callback}
    (h : Agrees fs c (fun k => Agrees fs c post k calls') k calls) :
    Agrees fs c post k (calls ++ calls') := by
  rw [Agrees] at h ⊢
  rw [List.foldlM_append, List.foldlM_append]
  cases hk' : calls.foldlM (handler fs c) k with
  | none =>
    rw [hk'] at h
    rw [h]
    rfl
  | some k' =>
    rw [hk'] at h
    obtain ⟨hcopied, h⟩ := h
    rw [hcopied]
    exact h

lemma Agrees.cons {cb : Callback} {calls : List Callback}
    (h : Agrees fs c (fun k => Agrees fs c post k calls) k [cb]) :
    Agrees fs c post k (cb :: calls) :=
  h.append

lemma Agrees.mono {post' : Context → Prop} {calls : List Callback} (h : Agrees fs c post k calls)
    (hpost : ∀ k, post k → post' k) : Agrees fs c post' k calls := by
  rw [Agrees] at h ⊢
  cases hk' : calls.foldlM (handler fs c) k with
  | none =>
    rw [hk'] at h
    exact h
  | some k' =>
    rw [hk'] at h
    exact ⟨h.1, hpost k' h.2⟩

lemma agrees_startMap (h : k.Pointing) :
    Agrees fs c (fun k => k.Pointing ∧ k.Owning) k [.startMap] := by
  refine ⟨?_, ⟨?_, ?_⟩, ?_⟩
  · change some _ = some _
    refine congrArg some ?_
    rw [Context.copied, Context.copied]
    dsimp only
    rw [Option.bind_some, List.getElem?_append_right le_rfl, Nat.sub_self]
    congr 1
    refine List.map_congr_left fun p hp => ?_
    rw [List.getD_eq_getElem?_getD, List.getD_eq_getElem?_getD,
      List.getElem?_append_left (h.queue p hp)]
  · rintro p hp
    obtain rfl := Option.some.inj hp
    simp
  · intro p hp
    rw [List.length_append]
    exact (h.queue p hp).trans (Nat.lt_succ_self _)
  · intro p hp hmem
    obtain rfl := Option.some.inj hp
    exact absurd (h.queue _ hmem) (lt_irrefl _)

lemma agrees_mapKey (fs : List CodecField) (c : FieldCodec) (h : k.Pointing ∧ k.Owning)
    (s : Bytes) :
    Agrees fs c (fun k => k.Pointing ∧ k.Owning) k [.mapKey s] := by
  rw [Agrees, List.foldlM_cons, List.foldlM_cons, handler, JSONCodec.handler]
  cases fieldOfName fs c s with
  | none => rfl
  | some f => exact ⟨rfl, ⟨h.1.object, h.1.queue⟩, h.2⟩

lemma copied_object {p : ℕ} {o : List (ℕ × Bytes)} (hp : k.objectPtr = some p)
    (ho : k.objects[p]? = some o) : k.copied.object = some o := by
  rw [Context.copied, hp, Option.bind_some, ho]

/-- A value comes to the object, and to no other one. -/
lemma copied_modify {p : ℕ} {o : List (ℕ × Bytes)} (h : k.Owning) (hp : k.objectPtr = some p)
    (ho : k.objects[p]? = some o) (e : ℕ × Bytes) :
    Context.copied { k with objects := k.objects.modify p (· ++ [e]) } =
      { k.copied with object := some (o ++ [e]) } := by
  rw [Context.copied, Context.copied]
  dsimp only
  rw [hp, Option.bind_some, List.getElem?_modify, ho]
  congr 1
  · simp
  · refine List.map_congr_left fun q hq => ?_
    have hne : p ≠ q := fun heq => h p hp (heq ▸ hq)
    rw [List.getD_eq_getElem?_getD, List.getD_eq_getElem?_getD,
      List.getElem?_modify_ne _ _ hne]

lemma agrees_value (h : k.Pointing ∧ k.Owning) (v : JSONValue) :
    Agrees fs c (fun k => k.Pointing ∧ k.Owning) k [JSONDocument.valueCallback v] := by
  obtain ⟨s, hhandler, hcopied⟩ : ∃ s,
      (∀ k, handler fs c k (JSONDocument.valueCallback v) = handler fs c k (.string s)) ∧
      ∀ k, JSONCodec.handler fs c k (JSONDocument.valueCallback v) =
        JSONCodec.handler fs c k (.string s) := by
    cases v with
    | number n => exact ⟨decimal n, fun _ => rfl, fun _ => rfl⟩
    | text s => exact ⟨s, fun _ => rfl, fun _ => rfl⟩
  obtain ⟨started, ended, objects, objectPtr, termRef, queue⟩ := k
  rw [Agrees, List.foldlM_cons, List.foldlM_cons, hhandler, hcopied, handler, JSONCodec.handler]
  cases objectPtr with
  | none => rfl
  | some p =>
    obtain ⟨o, ho⟩ : ∃ o, objects[p]? = some o :=
      ⟨_, List.getElem?_eq_getElem (h.1.object p rfl)⟩
    have hobject := copied_object (k := ⟨started, ended, objects, some p, termRef, queue⟩) rfl ho
    rw [hobject]
    cases termRef with
    | none => rfl
    | some ref =>
      refine ⟨congrArg some (copied_modify h.2 rfl ho (ref, s)).symm, ⟨?_, ?_⟩, h.2⟩
      · intro q hq
        rw [List.length_modify]
        exact h.1.object q hq
      · intro q hq
        rw [List.length_modify]
        exact h.1.queue q hq

lemma agrees_endMap (h : k.Pointing) : Agrees fs c Context.Pointing k [.endMap] := by
  obtain ⟨started, ended, objects, objectPtr, termRef, queue⟩ := k
  rw [Agrees, List.foldlM_cons, List.foldlM_cons, handler, JSONCodec.handler]
  cases objectPtr with
  | none => rfl
  | some p =>
    obtain ⟨o, ho⟩ : ∃ o, objects[p]? = some o := ⟨_, List.getElem?_eq_getElem (h.object p rfl)⟩
    have hobject := copied_object (k := ⟨started, ended, objects, some p, termRef, queue⟩) rfl ho
    have hget : objects.getD p [] = o := by
      rw [List.getD_eq_getElem?_getD, ho, Option.getD_some]
    rw [hobject]
    refine ⟨congrArg some ?_, h.object, ?_⟩
    · rw [Context.copied, Context.copied]
      dsimp only
      rw [List.map_append, List.map_singleton, hget, Option.bind_some, ho]
    · intro q hq
      rcases List.mem_append.1 hq with hq | hq
      · exact h.queue q hq
      · obtain rfl := List.mem_singleton.1 hq
        exact h.object q rfl

lemma agrees_members (o : List (Bytes × JSONValue)) (h : k.Pointing ∧ k.Owning) :
    Agrees fs c (fun k => k.Pointing ∧ k.Owning) k
      (o.flatMap fun e => [.mapKey e.1, JSONDocument.valueCallback e.2]) := by
  induction o generalizing k with
  | nil => exact ⟨rfl, h⟩
  | cons e o ih =>
    rw [List.flatMap_cons]
    refine Agrees.append ?_
    have hkey := agrees_mapKey fs c h e.1
    exact Agrees.cons (hkey.mono fun k hk =>
      (agrees_value hk e.2).mono fun k hk => ih hk)

lemma agrees_maps (d : JSONDocument) (h : k.Pointing) :
    Agrees fs c Context.Pointing k (d.flatMap JSONDocument.mapCallbacks) := by
  induction d generalizing k with
  | nil => exact ⟨rfl, h⟩
  | cons o d ih =>
    rw [List.flatMap_cons, JSONDocument.mapCallbacks]
    refine Agrees.append (Agrees.append (Agrees.cons ?_))
    exact (agrees_startMap h).mono fun k hk => (agrees_members o hk).mono fun k hk =>
      (agrees_endMap hk.1).mono fun k hk => ih hk

/-- In a document without nested values, an object that has been queued is not changed any more, so
that the handlers do the same to copies of the objects. -/
theorem agrees_document (fs : List CodecField) (c : FieldCodec) (d : JSONDocument) :
    Agrees fs c Context.Pointing {} d.callbacks := by
  rw [JSONDocument.callbacks, JSONDocument.opening]
  refine Agrees.append (Agrees.cons ?_)
  refine ⟨rfl, (agrees_maps d ⟨by simp, by simp⟩).mono fun k hk => ?_⟩
  exact ⟨rfl, hk.object, hk.queue⟩

/-! ### Reading -/

/-- The queue does not matter to the handlers. -/
lemma Safely.withQueue (h : Safely fs c (fun _ => True) k l) (q : List ℕ) :
    Safely fs c (fun _ => True) { k with queue := q } l := by
  induction l generalizing k q with
  | nil => trivial
  | cons e l ih =>
    obtain ⟨hsafe, k', hk', h⟩ := h
    obtain ⟨q', hq'⟩ : ∃ q', handler fs c { k with queue := q } e.2 =
        some { k' with queue := q' } := by
      rcases handler_cases hk' with ⟨s, p, ref, hcall, hp, href, rfl⟩ | ⟨s, f, hcall, hf, rfl⟩ |
        ⟨hcall, rfl⟩ | ⟨p, hcall, hp, rfl⟩ | ⟨hcall, rfl⟩ | ⟨hcall, rfl⟩
      · refine ⟨q, ?_⟩
        rcases hcall with hcall | hcall <;> rw [hcall, handler, hp, href] <;> rfl
      · exact ⟨q, by rw [hcall, handler, hf]; rfl⟩
      · exact ⟨q, by rw [hcall, handler]⟩
      · exact ⟨q ++ [p], by rw [hcall, handler, hp]; rfl⟩
      · exact ⟨q, by rw [hcall, handler]⟩
      · exact ⟨q, by rw [hcall, handler]⟩
    refine ⟨?_, _, hq', ih h q'⟩
    cases hcall : e.2 <;> rw [hcall] at hsafe <;> exact hsafe

/-- All references are found by the codec. -/
structure Known (fs : List CodecField) (c : FieldCodec) (k : Context) : Prop where
  objects : ∀ o ∈ k.objects, ∀ e ∈ o, fieldOfRef fs c e.1 ≠ none
  termRef : ∀ ref, k.termRef = some ref → fieldOfRef fs c ref ≠ none

/-- The fields that are found by their names are found by their references. -/
def Connected (fs : List CodecField) (c : FieldCodec) : Prop :=
  ∀ s f, fieldOfName fs c s = some f → fieldOfRef fs c f.term.termRef ≠ none

lemma Known.handler (hc : Connected fs c) (h : Known fs c k) {cb : Callback}
    (hk' : handler fs c k cb = some k') : Known fs c k' := by
  rcases handler_cases hk' with ⟨s, p, ref, -, -, href, rfl⟩ | ⟨s, f, -, hf, rfl⟩ | ⟨-, rfl⟩ |
    ⟨p, -, -, rfl⟩ | ⟨-, rfl⟩ | ⟨-, rfl⟩
  · refine ⟨fun o ho e he => ?_, h.termRef⟩
    obtain ⟨i, hi⟩ := List.mem_iff_getElem?.1 ho
    rw [List.getElem?_modify] at hi
    obtain ⟨o', ho', rfl⟩ := Option.map_eq_some_iff.1 hi
    split_ifs at he with hpi
    · rcases List.mem_append.1 he with he | he
      · exact h.objects o' (List.mem_of_getElem? ho') e he
      · -- the new value stands under the key that was read last
        obtain rfl := List.mem_singleton.1 he
        exact h.termRef ref href
    · exact h.objects o' (List.mem_of_getElem? ho') e he
  · refine ⟨h.objects, fun ref href => ?_⟩
    obtain rfl := Option.some.inj href
    exact hc s f hf
  · refine ⟨fun o ho e he => ?_, h.termRef⟩
    rcases List.mem_append.1 ho with ho | ho
    · exact h.objects o ho e he
    · obtain rfl := List.mem_singleton.1 ho
      exact absurd he List.not_mem_nil
  · exact ⟨h.objects, h.termRef⟩
  · exact ⟨h.objects, h.termRef⟩
  · exact ⟨h.objects, h.termRef⟩

/-- An object whose references are found is set, or a conversion throws. -/
lemma setValues_of_found (conv : LogConversions φ δ χ θ) (o : List (ℕ × Bytes))
    (ho : ∀ e ∈ o, fieldOfRef fs c e.1 ≠ none)
    (e : Event φ δ χ θ) : ∃ r, setValues conv fs c e o = some r ∧ r ≠ .none ∧ r ≠ .eof := by
  induction o generalizing e with
  | nil => exact ⟨.event e, rfl, by simp, by simp⟩
  | cons p o ih =>
    obtain ⟨ref, value⟩ := p
    obtain ⟨href, ho⟩ := List.forall_mem_cons.1 ho
    obtain ⟨f, hf⟩ := Option.ne_none_iff_exists'.1 href
    rw [setValues, hf, Option.bind_some]
    cases setValue conv f e ref value with
    | none => exact ⟨.threw, rfl, by simp, by simp⟩
    | some e' => exact ih ho e'

/-- The flags are set by the calls for arrays. -/
lemma handler_flags {cb : Callback} (hk' : handler fs c k cb = some k') :
    (k'.arrayStarted = true ↔ k.arrayStarted = true ∨ cb = .startArray) ∧
      (k'.arrayEnded = true ↔ k.arrayEnded = true ∨ cb = .endArray) := by
  rcases handler_cases hk' with ⟨s, p, ref, hcall | hcall, -, -, rfl⟩ | ⟨s, f, hcall, -, rfl⟩ |
    ⟨hcall, rfl⟩ | ⟨p, hcall, -, rfl⟩ | ⟨hcall, rfl⟩ | ⟨hcall, rfl⟩ <;> simp [hcall]

/-- A context, and the calls that are to come: the first one is that of the array. -/
structure Ready (fs : List CodecField) (c : FieldCodec) (k : Context)
    (l : List (Option Bytes × Callback)) : Prop where
  safely : Safely fs c (fun _ => True) k l
  known : Known fs c k
  arrays : l.Pairwise fun x y => x.2 = .endArray → y.2 ≠ .endMap
  ended : k.arrayEnded = true → ∀ e ∈ l, e.2 ≠ .endMap
  started : k.arrayStarted = true ∨ k.queue = [] ∧ l.head?.map Prod.snd = some .startArray

lemma Ready.foldlM (hc : Connected fs c) (h : Ready fs c k (l ++ l')) :
    ∃ k', (l.map Prod.snd).foldlM (handler fs c) k = some k' ∧ Ready fs c k' l' := by
  induction l generalizing k with
  | nil => exact ⟨k, rfl, h⟩
  | cons e l ih =>
    obtain ⟨hsafe, k₁, hk₁, hsafely⟩ := h.safely
    obtain ⟨hfirst, hrest⟩ := List.pairwise_cons.1 h.arrays
    obtain ⟨hstarted, hended⟩ := handler_flags hk₁
    have hready : Ready fs c k₁ (l ++ l') := by
      refine ⟨hsafely, h.known.handler hc hk₁, hrest, fun hend x hx => ?_, Or.inl ?_⟩
      · rcases hended.1 hend with hend | hend
        · exact h.ended hend x (List.mem_cons_of_mem _ hx)
        · exact hfirst x hx hend
      · rcases h.started with hstart | ⟨-, hhead⟩
        · exact hstarted.2 (Or.inl hstart)
        · exact hstarted.2 (Or.inr (Option.some.inj hhead))
    obtain ⟨k', hk', hready'⟩ := ih hready
    refine ⟨k', ?_, hready'⟩
    rw [List.map_cons, List.foldlM_cons, hk₁]
    exact hk'

lemma fillQueue_ready (hc : Connected fs c) {blocks : List (List Callback)}
    (h : Ready fs c k l) (hl : l.map Prod.snd = blocks.flatten) :
    ∃ r k' blocks' l', fillQueue fs c blocks k = some (r, k', blocks') ∧ Ready fs c k' l' ∧
      l'.map Prod.snd = blocks'.flatten ∧ (r ≠ .queued → AtEnd ⟨k', blocks'⟩) := by
  induction blocks generalizing k l with
  | nil =>
    by_cases hq : k.queue = []
    · cases hended : k.arrayEnded with
      | true =>
        refine ⟨.eof, k, [], l, ?_, h, hl, fun _ => ⟨hq, by simp⟩⟩
        rw [fillQueue, if_neg (not_not.2 hq), hended, if_pos rfl]
      | false =>
        refine ⟨.none, k, [], l, ?_, h, hl, fun _ => ⟨hq, by simp⟩⟩
        rw [fillQueue, if_neg (not_not.2 hq), hended, if_neg Bool.false_ne_true]
    · refine ⟨.queued, k, [], l, ?_, h, hl, fun hne => absurd rfl hne⟩
      rw [fillQueue, if_pos hq]
  | cons block blocks ih =>
    by_cases hq : k.queue = []
    · cases hended : k.arrayEnded with
      | true =>
        refine ⟨.eof, k, block :: blocks, l, ?_, h, hl, fun _ => ⟨hq, fun hmem => ?_⟩⟩
        · rw [fillQueue, if_neg (not_not.2 hq), hended, if_pos rfl]
        · rw [← hl] at hmem
          obtain ⟨e, he, hend⟩ := List.mem_map.1 hmem
          exact h.ended hended e he hend
      | false =>
        rw [List.flatten_cons] at hl
        obtain ⟨l₁, l₂, rfl, rfl, hl₂⟩ := List.map_eq_append_iff.1 hl
        obtain ⟨k', hk', hready⟩ := h.foldlM hc
        obtain ⟨r, k'', blocks', l', hfill, hrest⟩ := ih hready hl₂
        refine ⟨r, k'', blocks', l', ?_, hrest⟩
        rw [fillQueue, if_neg (not_not.2 hq), hended, if_neg Bool.false_ne_true, hk',
          Option.bind_some, hfill]
    · refine ⟨.queued, k, block :: blocks, l, ?_, h, hl, fun hne => absurd rfl hne⟩
      rw [fillQueue, if_pos hq]

/-- A call of `read` leaves a source that is ready for another one. -/
lemma read_ready (hc : Connected fs c) (horder : ∀ o, (order o).Perm o) {s : Source}
    (h : Ready fs c s.context l) (hl : l.map Prod.snd = s.blocks.flatten) :
    ∃ r s' l', read fs c conv order s = some (r, s') ∧ Ready fs c s'.context l' ∧
      l'.map Prod.snd = s'.blocks.flatten ∧ (r = .none ∨ r = .eof → AtEnd s') := by
  by_cases hempty : ¬ s.context.arrayStarted ∧ s.blocks = []
  · refine ⟨.none, s, l, ?_, h, hl, fun _ => ⟨?_, ?_⟩⟩
    · rw [read, if_pos hempty]
    · exact (h.started.resolve_left hempty.1).1
    · rw [hempty.2]
      exact List.not_mem_nil
  · obtain ⟨r, k, blocks, l', hfill, hready, hl', hend⟩ := fillQueue_ready hc h hl
    rw [read, if_neg hempty, hfill, Option.bind_some]
    cases r with
    | none => exact ⟨.none, ⟨k, blocks⟩, l', rfl, hready, hl', fun _ => hend (by simp)⟩
    | eof => exact ⟨.eof, ⟨k, blocks⟩, l', rfl, hready, hl', fun _ => hend (by simp)⟩
    | queued =>
      have hfound : ∀ e ∈ order (k.objects.getD (k.queue.headD 0) []),
          fieldOfRef fs c e.1 ≠ none := by
        intro e he
        have hmem := (horder _).mem_iff.1 he
        rw [List.getD_eq_getElem?_getD] at hmem
        cases hobject : k.objects[k.queue.headD 0]? with
        | none =>
          rw [hobject] at hmem
          exact absurd hmem List.not_mem_nil
        | some o =>
          rw [hobject] at hmem
          exact hready.known.objects o (List.mem_of_getElem? hobject) e hmem
      obtain ⟨r, hr, hnone, heof⟩ := setValues_of_found conv _ hfound []
      refine ⟨r, ⟨{ k with queue := k.queue.tail }, blocks⟩, l', ?_, ?_, hl', ?_⟩
      · dsimp only
        rw [hr, Option.map_some]
      · refine ⟨hready.safely.withQueue _, ⟨hready.known.objects, hready.known.termRef⟩,
          hready.arrays, hready.ended, hready.started.imp_right fun hhead => ?_⟩
        exact ⟨by rw [hhead.1]; rfl, hhead.2⟩
      · rintro (rfl | rfl)
        · exact absurd rfl hnone
        · exact absurd rfl heof

/-- All calls of `read` do as they should. -/
lemma serves_of_ready (hc : Connected fs c) (horder : ∀ o, (order o).Perm o) {s : Source}
    (h : Ready fs c s.context l) (hl : l.map Prod.snd = s.blocks.flatten) :
    Serves fs c conv order s := by
  intro n
  induction n generalizing s l with
  | zero =>
    obtain ⟨r, s', l', hread, -, -, hend⟩ := read_ready hc horder h hl
    exact ⟨s, r, s', rfl, hread, hend⟩
  | succ n ih =>
    obtain ⟨r, s', l', hread, hready, hl', -⟩ := read_ready hc horder h hl
    obtain ⟨s₁, r₁, s₂, htimes, hlast⟩ := ih hready hl'
    refine ⟨s₁, r₁, s₂, ?_, hlast⟩
    rw [readTimes, hread, Option.bind_some, htimes]

/-! ### What is not safe -/

lemma Safely.safeCall (h : Safely fs c post k l) {e : Option Bytes × Callback} (he : e ∈ l) :
    ∃ k, SafeCall fs c e.1 k e.2 := by
  induction l generalizing k with
  | nil => exact absurd he List.not_mem_nil
  | cons e' l ih =>
    obtain ⟨hsafe, k', -, h⟩ := h
    rcases List.mem_cons.1 he with rfl | he
    · exact ⟨k, hsafe⟩
    · exact ih h he

/-- A map that ends is queued. -/
lemma handler_queue {cb : Callback} (hk' : handler fs c k cb = some k') :
    k'.queue = k.queue ∨ ∃ p, k'.queue = k.queue ++ [p] := by
  rcases handler_cases hk' with ⟨s, p, ref, -, -, -, rfl⟩ | ⟨s, f, -, -, rfl⟩ | ⟨-, rfl⟩ |
    ⟨p, -, -, rfl⟩ | ⟨-, rfl⟩ | ⟨-, rfl⟩
  · exact Or.inl rfl
  · exact Or.inl rfl
  · exact Or.inl rfl
  · exact Or.inr ⟨p, rfl⟩
  · exact Or.inl rfl
  · exact Or.inl rfl

lemma Serves.next {s s' : Source} {r : JSONCodec.ReadResult φ δ χ θ}
    (h : Serves fs c conv order s) (hread : read fs c conv order s = some (r, s')) :
    Serves fs c conv order s' := by
  intro n
  obtain ⟨s₁, r₁, s₂, htimes, hlast⟩ := h (n + 1)
  rw [readTimes, hread, Option.bind_some] at htimes
  exact ⟨s₁, r₁, s₂, htimes, hlast⟩

/-- Sources that the next call of `read` finds the same. -/
lemma Serves.congr {s s' : Source} (h : Serves fs c conv order s)
    (hread : read fs c conv order s = read fs c conv order s') : Serves fs c conv order s' := by
  intro n
  cases n with
  | zero =>
    obtain ⟨s₁, r, s₂, htimes, hr, hend⟩ := h 0
    obtain rfl := Option.some.inj htimes
    exact ⟨s', r, s₂, rfl, hread ▸ hr, hend⟩
  | succ n =>
    obtain ⟨s₁, r, s₂, htimes, hlast⟩ := h (n + 1)
    refine ⟨s₁, r, s₂, ?_, hlast⟩
    rw [readTimes, ← hread]
    exact htimes

lemma fillQueue_single (fs : List CodecField) (c : FieldCodec) (hqueue : k.queue = [])
    (hended : k.arrayEnded = false) (x : Callback) (blocks : List (List Callback)) :
    fillQueue fs c ([x] :: blocks) k =
      (handler fs c k x).bind fun k => fillQueue fs c blocks k := by
  rw [fillQueue, if_neg (not_not.2 hqueue), hended, if_neg Bool.false_ne_true, List.foldlM_cons]
  cases handler fs c k x <;> rfl

/-- Where every call has a buffer of its own, `read` stops at the end of the first array. -/
lemma not_serves {a b : List Callback} (ha : .endArray ∉ a) (hb : .endMap ∈ b)
    (hqueue : k.queue = []) (hended : k.arrayEnded = false) :
    ¬ Serves fs c conv order ⟨k, (a ++ .endArray :: b).map ([·])⟩ := by
  induction a generalizing k with
  | nil =>
    intro h
    obtain ⟨s₁, r, s₂, htimes, hread, hend⟩ := h 0
    obtain rfl := Option.some.inj htimes
    have hfill : fillQueue fs c (([] ++ Callback.endArray :: b).map ([·])) k =
        some (.eof, { k with arrayEnded := true }, b.map ([·])) := by
      rw [List.nil_append, List.map_cons, fillQueue_single fs c hqueue hended, handler,
        Option.bind_some]
      cases b with
      | nil => exact absurd hb List.not_mem_nil
      | cons x b => rw [List.map_cons, fillQueue, if_neg (not_not.2 hqueue), if_pos rfl]
    rw [read, if_neg (by simp), hfill, Option.bind_some] at hread
    obtain ⟨rfl, rfl⟩ := Prod.mk.inj (Option.some.inj hread)
    have hnot := (hend (Or.inr rfl)).2
    rw [← List.flatMap_def, List.flatMap_singleton'] at hnot
    exact hnot hb
  | cons x a ih =>
    intro h
    obtain ⟨hx, ha⟩ := not_or.1 (mt List.mem_cons.2 ha)
    rw [List.cons_append, List.map_cons] at h
    obtain ⟨s₁, r, s₂, htimes, hread, -⟩ := h 0
    obtain rfl := Option.some.inj htimes
    have hfill := fillQueue_single fs c hqueue hended x
      ((a ++ .endArray :: b).map ([·]))
    cases hk' : handler fs c k x with
    | none =>
      rw [read, if_neg (by simp), hfill, hk'] at hread
      cases hread
    | some k' =>
      have hended' : k'.arrayEnded = false := by
        rw [← Bool.not_eq_true, (handler_flags hk').2, hended]
        simp [Ne.symm hx]
      by_cases hempty : k'.queue = []
      · refine ih ha hempty hended' (h.congr ?_)
        rw [read, read, if_neg (by simp), if_neg (by simp), hfill, hk', Option.bind_some]
      · -- the event is returned, and the queue is empty again
        have htail : k'.queue.tail = [] := by
          rcases handler_queue hk' with hq | ⟨p, hq⟩ <;> rw [hq, hqueue] <;> rfl
        have hqueued : fillQueue fs c ((a ++ .endArray :: b).map ([·])) k' =
            some (.queued, k', (a ++ .endArray :: b).map ([·])) := by
          cases hcalls : (a ++ .endArray :: b).map ([·]) <;> rw [fillQueue, if_pos hempty]
        have hnext := hread
        rw [read, if_neg (by simp), hfill, hk', Option.bind_some, hqueued, Option.bind_some]
          at hnext
        obtain ⟨r', hr', heq⟩ := Option.map_eq_some_iff.1 hnext
        obtain ⟨rfl, rfl⟩ := Prod.mk.inj heq
        exact ih (k := { k' with queue := k'.queue.tail }) ha htail hended' (h.next hread)

/-- The first array that ends in front of the end of an object. -/
lemma exists_first (h : ¬ l.Pairwise fun x y => x.2 = Callback.endArray → y.2 ≠ .endMap) :
    ∃ a b, l.map Prod.snd = a ++ .endArray :: b ∧ .endArray ∉ a ∧ .endMap ∈ b := by
  induction l with
  | nil => exact absurd List.Pairwise.nil h
  | cons e l ih =>
    by_cases hpairs : l.Pairwise fun x y => x.2 = Callback.endArray → y.2 ≠ .endMap
    · have hfirst : ∃ y ∈ l, e.2 = .endArray ∧ y.2 = .endMap := by
        by_contra hnone
        exact h (List.pairwise_cons.2 ⟨fun y hy hend hmap => hnone ⟨y, hy, hend, hmap⟩, hpairs⟩)
      obtain ⟨y, hy, hend, hmap⟩ := hfirst
      refine ⟨[], l.map Prod.snd, by rw [List.map_cons, hend]; rfl, List.not_mem_nil, ?_⟩
      exact hmap ▸ List.mem_map_of_mem hy
    · obtain ⟨a, b, hl, ha, hb⟩ := ih hpairs
      by_cases hend : e.2 = .endArray
      · refine ⟨[], l.map Prod.snd, by rw [List.map_cons, hend]; rfl, List.not_mem_nil, ?_⟩
        rw [hl]
        exact List.mem_append_right _ (List.mem_cons_of_mem _ hb)
      · refine ⟨e.2 :: a, b, by rw [List.map_cons, hl]; rfl, fun hmem => ?_, hb⟩
        exact (List.mem_cons.1 hmem).elim (fun heq => hend heq.symm) ha

/-- In a codec as it has been configured, the fields that have names have references. -/
lemma setConfig_connected {v : Vocabulary} (hv : v.Sound) {config : FieldCodec.Config}
    (h : setConfig .json v config = .ok (fs, c)) : Connected fs c := by
  have hmapped : Mapped fs c := (setConfig_consistent hv h).2 (c, v) List.mem_cons_self
  intro s f hf
  obtain ⟨e, he, hobject⟩ := Option.bind_eq_some_iff.1 hf
  have hmem : f ∈ fields fs c := by
    refine List.mem_filterMap.2 ⟨e.2, ?_, hobject⟩
    rw [hmapped.format]
    exact List.mem_map_of_mem (List.mem_of_find?_eq_some he)
  rw [(JSONCodec.setConfig_wired hv h).finds f hmem]
  exact Option.some_ne_none f

/-- A document is read safely by a codec as it has been configured, however it is cut into buffers,
just when its keys are mapped, its numbers and strings stand in objects, and no object ends behind
the end of an array. -/
theorem readsSafely_iff {edits : List Vocabulary.Edit} {config : FieldCodec.Config}
    (hconfig : setConfig .json (Vocabulary.make edits) config = .ok (fs, c))
    (horder : ∀ o, (order o).Perm o) (items : List JSON) :
    ReadsSafely fs c conv order items ↔ Digestible fs c items := by
  constructor
  · rintro ⟨hsafely, hserves⟩
    refine ⟨fun e he s hs => ?_, fun e he s hs => ?_, ?_⟩
    · obtain ⟨k, hsafe⟩ := hsafely.safeCall he
      rw [hs] at hsafe
      exact hsafe
    · obtain ⟨k, hsafe⟩ := hsafely.safeCall he
      rcases hs with hs | hs <;> rw [hs] at hsafe <;> obtain ⟨-, name, f, hname, -⟩ := hsafe <;>
        exact hname ▸ Option.some_ne_none name
    · by_contra hnot
      obtain ⟨a, b, hl, ha, hb⟩ := exists_first hnot
      refine not_serves ha hb rfl rfl (hserves _ ?_)
      rw [← List.flatMap_def, List.flatMap_singleton', hl]
  · rintro ⟨hknown, hkeyed, harrays⟩
    have hsafely := safely_item (.array items) {} ⟨hknown, hkeyed, harrays⟩
    refine ⟨hsafely, fun blocks hblocks => ?_⟩
    have hready : Ready fs c {} ((JSON.array items).calls none) := by
      refine ⟨hsafely, ⟨by simp, by simp⟩, harrays, by simp, Or.inr ⟨rfl, ?_⟩⟩
      rw [JSON.calls]
      rfl
    exact serves_of_ready (setConfig_connected (Vocabulary.sound_make edits) hconfig) horder hready
      hblocks.symm

/-- An object in an object, with the keys of a codec. -/
theorem readsSafely_iff_nested :
    ReadsSafely jsonFields jsonCodec signedDecimals id
      [.object [(ascii "y", .object [(ascii "x", .number (ascii "1"))]), (ascii "y", .null)],
        .null] := by
  have hconfig : setConfig .json (Vocabulary.make jsonEdits) jsonConfig =
      .ok (jsonFields, jsonCodec) := by
    decide +kernel
  have hcalls : (JSON.array [.object [(ascii "y", .object [(ascii "x", .number (ascii "1"))]),
        (ascii "y", .null)], .null]).calls none =
      [(none, .startArray), (none, .startMap), (some (ascii "y"), .mapKey (ascii "y")),
        (some (ascii "y"), .startMap), (some (ascii "x"), .mapKey (ascii "x")),
        (some (ascii "x"), .number (ascii "1")), (some (ascii "y"), .endMap),
        (some (ascii "y"), .mapKey (ascii "y")), (none, .endMap), (none, .endArray)] := rfl
  refine (readsSafely_iff hconfig (fun _ => List.Perm.refl _) _).2 ⟨?_, ?_, ?_⟩
  · intro e he s hs
    have hname : s = ascii "x" ∨ s = ascii "y" := by
      simp only [hcalls, List.mem_cons, List.not_mem_nil, or_false] at he
      rcases he with rfl | rfl | rfl | rfl | rfl | rfl | rfl | rfl | rfl | rfl <;> cases hs <;> simp
    rcases hname with rfl | rfl <;> decide +kernel
  · intro e he s hs
    simp only [hcalls, List.mem_cons, List.not_mem_nil, or_false] at he
    rcases he with rfl | rfl | rfl | rfl | rfl | rfl | rfl | rfl | rfl | rfl <;> simp at hs ⊢
  · rw [hcalls]
    simp

/-- A key that is not mapped is used as if it were. -/
theorem not_readsSafely :
    setConfig .json (Vocabulary.make jsonEdits) jsonConfig =
        .ok (jsonFields, jsonCodec) ∧
      ¬ ReadsSafely jsonFields jsonCodec signedDecimals id
        [.object [(ascii "z", .number (ascii "1"))]] := by
  refine ⟨by decide +kernel, fun h => ?_⟩
  obtain ⟨k, hsafe⟩ := h.1.safeCall (e := (some (ascii "z"), .mapKey (ascii "z")))
    (List.mem_cons_of_mem _ (List.mem_cons_of_mem _ List.mem_cons_self))
  exact hsafe (by decide +kernel)

end NestedJSON

end PionCore.Platform
