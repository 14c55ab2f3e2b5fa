/-
# Reading back what the JSON codec has written

The writer generates the document that has a map for each event.  The reader has at any time handed
some blocks of the text to the parser: its context is what the handlers make of the calls so far,
less the objects that were taken from the queue (`Reading`).  So each call of `read` takes the next
event, as soon as its map has been parsed.
-/
import PionCore.Platform.JSONCodec

namespace PionCore.Platform

open PionCore.Lib

namespace JSONCodec

open FieldCodec SortedMultimap JSONDocument
open LogCodec (PrintsBack noPrinters signedDecimals printsBack_signedDecimals)

variable {γ π φ δ χ θ : Type*} {y : Yajl γ π φ} {print : LogPrinters φ δ χ θ}
  {conv : LogConversions φ δ χ θ} {order : List (ℕ × Bytes) → List (ℕ × Bytes)}
  {objects : List CodecField} {c : FieldCodec}

/-! ### The document of some events -/

/-- What is written for an integer or a string. -/
def jsonValue : ParameterValue φ δ χ θ → JSONValue
  | .int32 v => .number v.toInt
  | .uint32 v => .number v.toNat
  | .int64 v => .text (decimal v.toInt)
  | .uint64 v => .text (numeral 10 v.toNat)
  | .blob v => .text v
  | _ => .text []

/-- The map of an event. -/
def mapOf (fs : List CodecField) (e : Event φ δ χ θ) : List (Bytes × JSONValue) :=
  fs.flatMap fun f => (values f.term.termRef e).map fun v => (f.fieldName, jsonValue v)

def document (fs : List CodecField) (es : List (Event φ δ χ θ)) : JSONDocument :=
  es.map (mapOf fs)

/-- A value of an integer or string type that is the one of the field's term.  A string is valid
UTF-8, and fits into a term of a fixed size. -/
def IntegerOrText (f : CodecField) (value : ParameterValue φ δ χ θ) : Prop :=
  match f.term.termType, value with
  | .int8, .int32 _ | .int16, .int32 _ | .int32, .int32 _ | .int64, .int64 _ => True
  | .uint8, .uint32 _ | .uint16, .uint32 _ | .uint32, .uint32 _ | .uint64, .uint64 _ => True
  | .shortString, .blob v | .string, .blob v | .longString, .blob v | .blob, .blob v
  | .zblob, .blob v => ValidUTF8 v
  | .char, .blob v => ValidUTF8 v ∧ v.length ≤ f.term.termSize
  | _, _ => False

/-- An event that can be written: a sorted tree, whose values for the fields are integers and
valid strings. -/
structure Writable (fs : List CodecField) (e : Event φ δ χ θ) : Prop where
  sorted : Sorted e
  value : ∀ f ∈ fs, ∀ v ∈ values f.term.termRef e, IntegerOrText f v

/-- The event that was read has for each field the values of the one that was written, and no
others. -/
structure SameValues (fs : List CodecField) (e e' : Event φ δ χ θ) : Prop where
  mapped : ∀ f ∈ fs, (values f.term.termRef e').Perm (values f.term.termRef e)
  others : ∀ ref, ref ∉ fs.map (fun f => f.term.termRef) → values ref e' = []

lemma IntegerOrText.valueCalls {f : CodecField} {v : ParameterValue φ δ χ θ}
    (h : IntegerOrText f v) : valueCalls print f v = some [valueCall (jsonValue v)] := by
  cases htype : f.term.termType <;> cases v <;>
    simp only [IntegerOrText, htype] at h <;>
    simp only [JSONCodec.valueCalls, htype] <;> try rfl
  case char.blob v =>
    rw [List.take_of_length_le h.2]
    rfl

/-- A map of integers and valid strings is valid. -/
lemma IntegerOrText.valid {f : CodecField} {v : ParameterValue φ δ χ θ} (h : IntegerOrText f v)
    {s : Bytes} (hs : jsonValue v = .text s) : ValidUTF8 s := by
  have hdecimal : ∀ z, ValidUTF8 (decimal z) := by
    intro z
    rw [decimal]
    split_ifs
    · exact ValidUTF8.numeral _
    · exact ValidUTF8.append (s := [45]) (ValidUTF8.of_ascii (by simp)) (ValidUTF8.numeral _)
  cases v with
  | int32 v | uint32 v => exact absurd hs (by simp [jsonValue])
  | float v | double v | longDouble v | dateTime v =>
    obtain rfl := JSONValue.text.inj hs
    exact ValidUTF8.nil
  | int64 v =>
    obtain rfl := JSONValue.text.inj hs
    exact hdecimal _
  | uint64 v =>
    obtain rfl := JSONValue.text.inj hs
    exact ValidUTF8.numeral _
  | blob v =>
    obtain rfl := JSONValue.text.inj hs
    cases htype : f.term.termType <;> simp only [IntegerOrText, htype] at h
    case char => exact h.1
    all_goals exact h

lemma Writable.valid {fs : List CodecField} (hnames : ∀ f ∈ fs, ValidUTF8 f.fieldName)
    {es : List (Event φ δ χ θ)} (hes : ∀ e ∈ es, Writable fs e) : (document fs es).Valid := by
  intro o ho p hp
  obtain ⟨e, he, rfl⟩ := List.mem_map.1 ho
  obtain ⟨f, hf, hp⟩ := List.mem_flatMap.1 hp
  obtain ⟨v, hv, rfl⟩ := List.mem_map.1 hp
  exact ⟨hnames f hf, fun s hs => ((hes e he).value f hf v hv).valid hs⟩

/-! ### The writer -/

lemma generate_append (g : γ × Bytes) (cs ds : List (GenCall φ)) :
    y.generate g (cs ++ ds) = y.generate (y.generate g cs) ds := List.foldl_append

/-- What is in the buffer already stays there. -/
lemma generate_buffer (g : γ) (buf : Bytes) (cs : List (GenCall φ)) :
    y.generate (g, buf) cs = ((y.generate (g, []) cs).1, buf ++ (y.generate (g, []) cs).2) := by
  induction cs generalizing g buf with
  | nil => simp [Yajl.generate]
  | cons call cs ih =>
    have hcons : ∀ buf, y.generate (g, buf) (call :: cs) =
        y.generate ((y.gen g call).1, buf ++ (y.gen g call).2) cs := fun _ => rfl
    rw [hcons, hcons, ih, ih _ ([] ++ (y.gen g call).2), List.nil_append, List.append_assoc]

/-- The buffer may be cleared between the calls. -/
lemma generate_clear (g : γ × Bytes) (cs ds : List (GenCall φ)) :
    y.generate g (cs ++ ds) =
      ((y.generate ((y.generate g cs).1, []) ds).1,
        (y.generate g cs).2 ++ (y.generate ((y.generate g cs).1, []) ds).2) := by
  rw [generate_append, ← generate_buffer]

lemma valuesCalls_eq (print : LogPrinters φ δ χ θ) {f : CodecField}
    (ps : List (ℕ × ParameterValue φ δ χ θ))
    (h : ∀ p ∈ ps, IntegerOrText f p.2) :
    valuesCalls print f ps =
      some (mapCalls ((ps.map Prod.snd).map fun v => (f.fieldName, jsonValue v))) := by
  induction ps with
  | nil => rfl
  | cons p ps ih =>
    rw [valuesCalls, (h p List.mem_cons_self).valueCalls, Option.bind_some,
      ih fun q hq => h q (List.mem_cons_of_mem _ hq)]
    rfl

/-- The calls for the fields of an event are those for its map. -/
lemma Writable.fieldsCalls {fs gs : List CodecField} {e : Event φ δ χ θ} (h : Writable fs e)
    (hgs : ∀ f ∈ gs, f ∈ fs) : fieldsCalls print e gs = some (mapCalls (mapOf gs e)) := by
  induction gs with
  | nil => rfl
  | cons f gs ih =>
    have hvalues := valuesCalls_eq print (f := f)
      (range (lowerBound f.term.termRef e) (upperBound f.term.termRef e) e) (by
        intro p hp
        rw [h.sorted.range_eq] at hp
        exact h.value f (hgs f List.mem_cons_self) p.2 (List.mem_map_of_mem hp))
    rw [JSONCodec.fieldsCalls, hvalues, Option.bind_some,
      ih fun g hg => hgs g (List.mem_cons_of_mem _ hg), h.sorted.range_eq]
    simp only [Option.map_some, mapOf, mapCalls, List.flatMap_cons, List.flatMap_append]
    rfl

/-- The calls of the maps. -/
def mapsCalls (d : JSONDocument) : List (GenCall φ) :=
  d.flatMap fun o => .mapOpen :: mapCalls o ++ [.mapClose]

/-- The calls for the map of an event. -/
def eventCalls (fs : List CodecField) (e : Event φ δ χ θ) : List (GenCall φ) :=
  .mapOpen :: mapCalls (mapOf fs e) ++ [.mapClose]

lemma Writable.write {fs : List CodecField} {e : Event φ δ χ θ} (h : Writable fs e)
    {w : Writer γ} {g : γ × Bytes} (hg : opened y w = some g) :
    write y print fs w e =
      some (⟨false, some ((y.generate g (eventCalls fs e)).1, [])⟩,
        (y.generate g (eventCalls fs e)).2) := by
  rw [JSONCodec.write, hg, h.fieldsCalls fun f hf => hf]
  rfl

lemma writeEvents_eq {fs : List CodecField} {es : List (Event φ δ χ θ)}
    (hes : ∀ e ∈ es, Writable fs e) (g : γ) :
    writeEvents y print fs ⟨false, some (g, [])⟩ es =
      some (⟨false, some ((y.generate (g, []) (mapsCalls (document fs es))).1, [])⟩,
        (y.generate (g, []) (mapsCalls (document fs es))).2) := by
  induction es generalizing g with
  | nil => rfl
  | cons e es ih =>
    have hmaps : mapsCalls (document fs (e :: es)) =
        eventCalls fs e ++ mapsCalls (document fs es) := rfl
    rw [writeEvents, (hes e List.mem_cons_self).write rfl, Option.bind_some,
      ih fun e' he => hes e' (List.mem_cons_of_mem _ he), hmaps, generate_clear]
    rfl

/-- The text of some events is the text of their document; without events nothing is written. -/
lemma writeAll_eq {fs : List CodecField} {es : List (Event φ δ χ θ)}
    (hes : ∀ e ∈ es, Writable fs e) :
    writeAll y print fs es = some (if es = [] then [] else y.text (document fs es)) := by
  cases es with
  | nil => rfl
  | cons e es =>
    have hcalls : (document fs (e :: es)).calls =
        (([.arrayOpen] ++ eventCalls fs e) ++ mapsCalls (document fs es)) ++ [.arrayClose] := by
      simp [JSONDocument.calls, mapsCalls, eventCalls, document]
    have hfirst : opened y ({} : Writer γ) = some (y.generate (y.genAlloc, []) [.arrayOpen]) := rfl
    rw [writeAll, writeEvents, (hes e List.mem_cons_self).write hfirst, Option.bind_some,
      writeEvents_eq fun e' he => hes e' (List.mem_cons_of_mem _ he), if_neg (by simp), Yajl.text,
      hcalls, generate_clear, generate_clear, generate_append _ [.arrayOpen]]
    rfl

/-! ### The handlers -/

variable {k k' k'' : Context} {ks : List Callback} {fs : List CodecField}
  {es : List (Event φ δ χ θ)}

/-- What the handlers leave as it is: the objects that are queued, and the flags that are set. -/
structure Grows (k k' : Context) : Prop where
  queue : k.queue <+: k'.queue
  started : k.arrayStarted = true → k'.arrayStarted = true
  ended : k.arrayEnded = true → k'.arrayEnded = true

lemma Grows.refl (k : Context) : Grows k k := ⟨List.prefix_rfl, id, id⟩

lemma Grows.trans (h : Grows k k') (h' : Grows k' k'') : Grows k k'' :=
  ⟨h.queue.trans h'.queue, h'.started ∘ h.started, h'.ended ∘ h.ended⟩

lemma handler_grows {cb : Callback} (h : handler objects c k cb = some k') : Grows k k' := by
  cases cb with
  | number s | string s =>
    obtain ⟨o, -, h⟩ := Option.bind_eq_some_iff.1 h
    obtain ⟨ref, -, rfl⟩ := Option.map_eq_some_iff.1 h
    exact ⟨List.prefix_rfl, id, id⟩
  | mapKey s =>
    obtain ⟨f, -, rfl⟩ := Option.map_eq_some_iff.1 h
    exact ⟨List.prefix_rfl, id, id⟩
  | endMap =>
    obtain ⟨o, -, rfl⟩ := Option.map_eq_some_iff.1 h
    exact ⟨List.prefix_append _ _, id, id⟩
  | startMap =>
    obtain rfl := Option.some.inj h
    exact ⟨List.prefix_rfl, id, id⟩
  | startArray =>
    obtain rfl := Option.some.inj h
    exact ⟨List.prefix_rfl, fun _ => rfl, id⟩
  | endArray =>
    obtain rfl := Option.some.inj h
    exact ⟨List.prefix_rfl, id, fun _ => rfl⟩

lemma foldlM_grows (h : ks.foldlM (handler objects c) k = some k') : Grows k k' := by
  induction ks generalizing k with
  | nil =>
    obtain rfl := Option.some.inj h
    exact Grows.refl k
  | cons cb ks ih =>
    rw [List.foldlM_cons] at h
    obtain ⟨k'', hcb, h⟩ := Option.bind_eq_some_iff.1 h
    exact (handler_grows hcb).trans (ih h)

/-- The context without the first objects of the queue. -/
def Context.dequeue (n : ℕ) (k : Context) : Context := { k with queue := k.queue.drop n }

lemma handler_dequeue {n : ℕ} (hn : n ≤ k.queue.length) (cb : Callback) :
    handler objects c (k.dequeue n) cb = (handler objects c k cb).map (Context.dequeue n) := by
  cases cb with
  | number s | string s =>
    cases ho : k.object <;> cases ht : k.termRef <;> simp [handler, Context.dequeue, ho, ht]
  | mapKey s => cases hf : fieldOfName objects c s <;> simp [handler, Context.dequeue, hf]
  | endMap =>
    cases ho : k.object <;> simp [handler, Context.dequeue, ho, List.drop_append_of_le_length hn]
  | startMap | startArray | endArray => rfl

/-- The handlers do not mind whether objects are taken from the queue. -/
lemma foldlM_dequeue {n : ℕ} (hn : n ≤ k.queue.length) :
    ks.foldlM (handler objects c) (k.dequeue n) =
      (ks.foldlM (handler objects c) k).map (Context.dequeue n) := by
  induction ks generalizing k with
  | nil => rfl
  | cons cb ks ih =>
    rw [List.foldlM_cons, List.foldlM_cons, handler_dequeue hn]
    cases hcb : handler objects c k cb with
    | none => rfl
    | some k' => exact ih (hn.trans (handler_grows hcb).queue.length_le)

/-! ### The objects of the queue -/

def valueText : JSONValue → Bytes
  | .number n => decimal n
  | .text s => s

/-- The fields of an event with their values. -/
def pairs (fs : List CodecField) (e : Event φ δ χ θ) :
    List (CodecField × ParameterValue φ δ χ θ) :=
  fs.flatMap fun f => (values f.term.termRef e).map fun v => (f, v)

lemma mapOf_eq (fs : List CodecField) (e : Event φ δ χ θ) :
    mapOf fs e = (pairs fs e).map fun p => (p.1.fieldName, jsonValue p.2) := by
  rw [mapOf, pairs, List.map_flatMap]
  simp [Function.comp_def]

lemma mem_pairs {e : Event φ δ χ θ} {p : CodecField × ParameterValue φ δ χ θ} :
    p ∈ pairs fs e ↔ p.1 ∈ fs ∧ p.2 ∈ values p.1.term.termRef e := by
  obtain ⟨f, v⟩ := p
  simp only [pairs, List.mem_flatMap, List.mem_map, Prod.mk.injEq]
  constructor
  · rintro ⟨g, hg, w, hw, rfl, rfl⟩
    exact ⟨hg, hw⟩
  · rintro ⟨hf, hv⟩
    exact ⟨f, hf, v, hv, rfl, rfl⟩

/-- The object that is queued for an event. -/
def objectOf (fs : List CodecField) (e : Event φ δ χ θ) : List (ℕ × Bytes) :=
  (pairs fs e).map fun p => (p.1.term.termRef, valueText (jsonValue p.2))

lemma foldlM_pairs (ps : List (CodecField × ParameterValue φ δ χ θ))
    (hps : ∀ p ∈ ps, fieldOfName objects c p.1.fieldName = some p.1) {o : List (ℕ × Bytes)}
    (hk : k.object = some o) :
    ∃ ref, ((ps.map fun p => (p.1.fieldName, jsonValue p.2)).flatMap
        fun e => [.mapKey e.1, valueCallback e.2]).foldlM (handler objects c) k =
      some { k with
        object := some (o ++ ps.map fun p => (p.1.term.termRef, valueText (jsonValue p.2)))
        termRef := ref } := by
  induction ps generalizing k o with
  | nil =>
    refine ⟨k.termRef, ?_⟩
    simp only [List.map_nil, List.append_nil, ← hk]
    rfl
  | cons p ps ih =>
    obtain ⟨f, v⟩ := p
    have hkey : handler objects c k (.mapKey f.fieldName) =
        some { k with termRef := some f.term.termRef } := by
      rw [handler, hps (f, v) List.mem_cons_self]
      rfl
    have hvalue : handler objects c { k with termRef := some f.term.termRef }
        (valueCallback (jsonValue v)) =
        some { k with
          object := some (o ++ [(f.term.termRef, valueText (jsonValue v))])
          termRef := some f.term.termRef } := by
      cases jsonValue v <;> simp [valueCallback, handler, hk, valueText]
    obtain ⟨ref, hrest⟩ := ih (fun q hq => hps q (List.mem_cons_of_mem _ hq))
      (k := { k with
        object := some (o ++ [(f.term.termRef, valueText (jsonValue v))])
        termRef := some f.term.termRef }) rfl
    refine ⟨ref, ?_⟩
    rw [List.map_cons, List.flatMap_cons, List.cons_append, List.cons_append, List.nil_append,
      List.foldlM_cons, hkey, Option.bind_eq_bind, Option.bind_some, List.foldlM_cons, hvalue,
      Option.bind_eq_bind, Option.bind_some, hrest, List.append_assoc]
    rfl

/-- The handlers know the fields by their names. -/
def Knows (objects : List CodecField) (c : FieldCodec) (fs : List CodecField) : Prop :=
  ∀ f ∈ fs, fieldOfName objects c f.fieldName = some f

/-- The map of an event is queued as its object. -/
lemma foldlM_mapCallbacks (hfs : Knows objects c fs) (e : Event φ δ χ θ) :
    ∃ ref, (mapCallbacks (mapOf fs e)).foldlM (handler objects c) k =
      some { k with
        object := some (objectOf fs e)
        termRef := ref
        queue := k.queue ++ [objectOf fs e] } := by
  obtain ⟨ref, hpairs⟩ := foldlM_pairs (k := { k with object := some [] }) (pairs fs e)
    (fun p hp => hfs p.1 (mem_pairs.1 hp).1) rfl
  refine ⟨ref, ?_⟩
  have hstart : handler objects c k .startMap = some { k with object := some [] } := rfl
  rw [mapCallbacks, mapOf_eq, List.cons_append, List.foldlM_cons, hstart, Option.bind_eq_bind,
    Option.bind_some, List.foldlM_append, hpairs]
  rfl

lemma foldlM_maps (hfs : Knows objects c fs) (es : List (Event φ δ χ θ)) :
    ∃ k', ((document fs es).flatMap mapCallbacks).foldlM (handler objects c) k = some k' ∧
      k'.arrayStarted = k.arrayStarted ∧ k'.arrayEnded = k.arrayEnded ∧
      k'.queue = k.queue ++ es.map (objectOf fs) := by
  induction es generalizing k with
  | nil => exact ⟨k, rfl, rfl, rfl, (List.append_nil _).symm⟩
  | cons e es ih =>
    obtain ⟨ref, hmap⟩ := foldlM_mapCallbacks (k := k) hfs e
    obtain ⟨k', hrest, hstarted, hended, hqueue⟩ := ih (k := { k with
      object := some (objectOf fs e)
      termRef := ref
      queue := k.queue ++ [objectOf fs e] })
    refine ⟨k', ?_, hstarted, hended, ?_⟩
    · rw [document, List.map_cons, List.flatMap_cons, List.foldlM_append, hmap]
      exact hrest
    · rw [hqueue, List.append_assoc]
      rfl

/-- The context behind some callbacks of a document. -/
structure Handled (fs : List CodecField) (es : List (Event φ δ χ θ)) (ks : List Callback)
    (k : Context) : Prop where
  queue : k.queue <+: es.map (objectOf fs)
  started : k.arrayStarted = true ↔ ks ≠ []
  ended : k.arrayEnded = true ↔ ks = (document fs es).callbacks
  complete : k.arrayEnded = true → k.queue = es.map (objectOf fs)

lemma foldlM_callbacks (hfs : Knows objects c fs) (hks : ks <+: (document fs es).callbacks) :
    ∃ k, ks.foldlM (handler objects c) {} = some k ∧ Handled fs es ks k := by
  obtain ⟨k₁, hmaps, hstarted, hended, hqueue⟩ :=
    foldlM_maps (k := { ({} : Context) with arrayStarted := true }) hfs es
  have hopening : (opening (document fs es)).foldlM (handler objects c) {} = some k₁ := hmaps
  have hlast : (document fs es).callbacks.foldlM (handler objects c) {} =
      some { k₁ with arrayEnded := true } := by
    rw [callbacks, List.foldlM_append, hopening]
    rfl
  rcases List.prefix_concat_iff.1 hks with rfl | hprefix
  · refine ⟨_, hlast, ⟨?_, ?_, by simp [callbacks], ?_⟩⟩
    · rw [hqueue]
      exact List.prefix_rfl
    · simp [hstarted]
    · exact fun _ => hqueue
  · -- the array has not ended
    obtain ⟨rest, hrest⟩ := hprefix
    rw [← hrest, List.foldlM_append] at hopening
    obtain ⟨k, hk, hkrest⟩ := Option.bind_eq_some_iff.1 hopening
    have hgrows := foldlM_grows hkrest
    have hnot : ¬ k.arrayEnded = true := fun h => by
      have := hgrows.ended h
      rw [hended] at this
      cases this
    refine ⟨k, hk, ⟨?_, ?_, ?_, fun h => absurd h hnot⟩⟩
    · have := hgrows.queue
      rwa [hqueue] at this
    · cases ks with
      | nil =>
        obtain rfl := Option.some.inj hk
        simp
      | cons cb ks =>
        obtain rfl : cb = .startArray := (List.cons.inj hrest).1
        rw [List.foldlM_cons] at hk
        exact ⟨fun _ => List.cons_ne_nil _ _, fun _ => (foldlM_grows hk).started rfl⟩
    · refine ⟨fun h => absurd h hnot, fun h => ?_⟩
      have hlen := congrArg List.length hrest
      have hlen' := congrArg List.length h
      simp only [callbacks, List.length_append, List.length_singleton] at hlen hlen'
      omega

/-! ### The values of an event -/

lemma setValue_eq (hconv : PrintsBack conv)
    (hutf8 : ∀ s, ValidUTF8 s → conv.makeUTF8Blob s = some s) {f : CodecField}
    {v : ParameterValue φ δ χ θ} (h : IntegerOrText f v) (e : Event φ δ χ θ) (ref : ℕ) :
    setValue conv f e ref (valueText (jsonValue v)) = some (e.insert ref v) := by
  have hnat : ∀ n : ℕ, decimal (n : ℤ) = numeral 10 n := fun n => by simp [decimal]
  cases htype : f.term.termType <;> cases v <;>
    simp only [IntegerOrText, htype] at h <;>
    simp only [setValue, htype, jsonValue, valueText]
  case int8.int32 v | int16.int32 v | int32.int32 v =>
    rw [hconv.toInt32]
    rfl
  case uint8.uint32 v | uint16.uint32 v | uint32.uint32 v =>
    rw [hnat, hconv.toUInt32]
    rfl
  case int64.int64 v =>
    rw [hconv.toInt64]
    rfl
  case uint64.uint64 v =>
    rw [hconv.toUInt64]
    rfl
  case shortString.blob v | string.blob v | longString.blob v =>
    rw [Event.setString, hutf8 v h]
    rfl
  case char.blob v =>
    rw [List.take_of_length_le h.2, Event.setString, hutf8 v h.1]
    rfl
  case blob.blob v | zblob.blob v => rfl

/-- The codec finds the fields by the references of their terms. -/
def Finds (objects : List CodecField) (c : FieldCodec) (fs : List CodecField) : Prop :=
  ∀ f ∈ fs, fieldOfRef objects c f.term.termRef = some f

lemma setValues_eq (hconv : PrintsBack conv)
    (hutf8 : ∀ s, ValidUTF8 s → conv.makeUTF8Blob s = some s)
    (ps : List (CodecField × ParameterValue φ δ χ θ))
    (hps : ∀ p ∈ ps, fieldOfRef objects c p.1.term.termRef = some p.1 ∧ IntegerOrText p.1 p.2)
    (e : Event φ δ χ θ) :
    setValues conv objects c e
        (ps.map fun p => (p.1.term.termRef, valueText (jsonValue p.2))) =
      some (.event (insertAll e (ps.map fun p => (p.1.term.termRef, p.2)))) := by
  induction ps generalizing e with
  | nil => rfl
  | cons p ps ih =>
    obtain ⟨hfield, hvalue⟩ := hps p List.mem_cons_self
    rw [List.map_cons, setValues, hfield, Option.bind_some,
      setValue_eq hconv hutf8 hvalue]
    exact ih (fun q hq => hps q (List.mem_cons_of_mem _ hq)) _

/-- A permutation of the image of a list is the image of a permutation. -/
lemma exists_perm_of_map {α β : Type*} {g : α → β} {l m : List β} (h : l.Perm m) (xs : List α)
    (hm : m = xs.map g) : ∃ ys : List α, ys.Perm xs ∧ l = ys.map g := by
  induction h generalizing xs with
  | nil => exact ⟨xs, List.Perm.refl _, hm⟩
  | cons b _ ih =>
    obtain ⟨x, xs, rfl, rfl, hxs⟩ := List.map_eq_cons_iff.1 hm.symm
    obtain ⟨ys, hys, rfl⟩ := ih _ hxs.symm
    exact ⟨x :: ys, hys.cons x, rfl⟩
  | swap a b l =>
    obtain ⟨x, xs, rfl, rfl, hxs⟩ := List.map_eq_cons_iff.1 hm.symm
    obtain ⟨x', xs, rfl, rfl, rfl⟩ := List.map_eq_cons_iff.1 hxs
    exact ⟨x' :: x :: xs, List.Perm.swap x x' xs, rfl⟩
  | trans _ _ ih ih' =>
    obtain ⟨ys, hys, rfl⟩ := ih' xs hm
    obtain ⟨zs, hzs, rfl⟩ := ih ys rfl
    exact ⟨zs, hzs.trans hys, rfl⟩

/-- The values of an event for the fields, by their terms. -/
lemma values_pairs {e : Event φ δ χ θ} (hfs : (fs.map fun f => f.term.termRef).Nodup) (ref : ℕ) :
    values ref ((pairs fs e).map fun p => (p.1.term.termRef, p.2)) =
      if ref ∈ fs.map (fun f => f.term.termRef) then values ref e else [] := by
  induction fs with
  | nil => rfl
  | cons f fs ih =>
    obtain ⟨hf, hfs⟩ := List.nodup_cons.1 hfs
    have hpairs : (pairs (f :: fs) e).map (fun p => (p.1.term.termRef, p.2)) =
        (values f.term.termRef e).map (fun v => (f.term.termRef, v)) ++
          (pairs fs e).map fun p => (p.1.term.termRef, p.2) := by
      simp [pairs, Function.comp_def]
    rw [hpairs, values_append, ih hfs]
    by_cases href : ref = f.term.termRef
    · subst href
      rw [if_neg hf, if_pos (by simp)]
      simp [values, List.filter_map, Function.comp_def]
    · have hnone :
          values ref ((values f.term.termRef e).map fun v => (f.term.termRef, v)) = [] := by
        simp [values, List.filter_map, Function.comp_def, Ne.symm href]
      rw [hnone, List.nil_append]
      simp [href]

/-- What the reader needs of a codec: the fields are found, and their terms are different. -/
structure Wired (objects : List CodecField) (c : FieldCodec) (fs : List CodecField) : Prop where
  knows : Knows objects c fs
  finds : Finds objects c fs
  nodup : (fs.map fun f => f.term.termRef).Nodup

/-- The object of an event is read back. -/
lemma setValues_objectOf (hwired : Wired objects c fs) (hconv : PrintsBack conv)
    (hutf8 : ∀ s, ValidUTF8 s → conv.makeUTF8Blob s = some s) (horder : ∀ o, (order o).Perm o)
    {e : Event φ δ χ θ} (he : Writable fs e) :
    ∃ e', setValues conv objects c [] (order (objectOf fs e)) = some (.event e') ∧
      SameValues fs e e' := by
  obtain ⟨qs, hqs, horder⟩ := exists_perm_of_map (horder (objectOf fs e)) (pairs fs e) rfl
  have hperm : ∀ ref, (values ref (insertAll [] (qs.map fun p => (p.1.term.termRef, p.2)))).Perm
      (if ref ∈ fs.map (fun f => f.term.termRef) then values ref e else []) := by
    intro ref
    rw [values_insertAll List.Pairwise.nil, ← values_pairs hwired.nodup]
    exact ((hqs.map fun p => (p.1.term.termRef, p.2)).filter _).map Prod.snd
  refine ⟨insertAll [] (qs.map fun p => (p.1.term.termRef, p.2)), ?_, ⟨fun f hf => ?_,
    fun ref href => ?_⟩⟩
  · rw [horder]
    refine setValues_eq hconv hutf8 qs (fun p hp => ?_) []
    obtain ⟨hf, hv⟩ := mem_pairs.1 (hqs.subset hp)
    exact ⟨hwired.finds p.1 hf, he.value p.1 hf p.2 hv⟩
  · have := hperm f.term.termRef
    rwa [if_pos (List.mem_map_of_mem hf)] at this
  · have := hperm ref
    rw [if_neg href] at this
    exact List.perm_nil.1 this

/-! ### The fields of a codec as it has been configured -/

lemma find?_of_nodup {α β : Type*} [BEq α] [LawfulBEq α] {l : List (α × β)} {p : α × β}
    (hnodup : (l.map Prod.fst).Nodup) (hp : p ∈ l) : l.find? (fun e => e.1 == p.1) = some p := by
  induction l with
  | nil => exact absurd hp List.not_mem_nil
  | cons q l ih =>
    obtain ⟨hq, hl⟩ := List.nodup_cons.1 hnodup
    rcases List.mem_cons.1 hp with rfl | hp
    · exact List.find?_cons_of_pos (beq_self_eq_true _)
    · refine (List.find?_cons_of_neg fun heq => ?_).trans (ih hl hp)
      exact hq (eq_of_beq heq ▸ List.mem_map_of_mem hp)

lemma mapped_knows (h : Mapped objects c) : Knows objects c (fields objects c) := by
  intro f hf
  obtain ⟨a, ha, hobject⟩ := List.mem_filterMap.1 hf
  rw [h.format] at ha
  obtain ⟨p, hp, rfl⟩ := List.mem_map.1 ha
  have hname := h.name p hp
  rw [hobject, Option.map_some, Option.some.injEq] at hname
  rw [fieldOfName, findField, hname, find?_of_nodup h.nodup hp, Option.bind_some, hobject]

/-- The references lead to the fields of their terms. -/
structure Pointing (objects : List CodecField) (ptrMap : List (ℕ × ℕ)) : Prop where
  nodup : (ptrMap.map Prod.fst).Nodup
  field : ∀ e ∈ ptrMap, ∃ f, objects[e.2]? = some f ∧ f.term.termRef = e.1

lemma pointToFields_pointing (m : List (Bytes × ℕ)) {ptrMap ptrMap' : List (ℕ × ℕ)}
    (h : Pointing objects ptrMap) (hm : pointToFields objects m ptrMap = .ok ptrMap') :
    Pointing objects ptrMap' := by
  induction m generalizing ptrMap with
  | nil =>
    obtain rfl := Except.ok.inj hm
    exact h
  | cons e m ih =>
    obtain ⟨name, a⟩ := e
    rw [pointToFields] at hm
    cases hf : objects[a]? with
    | none =>
      rw [hf] at hm
      exact ih h hm
    | some f =>
      rw [hf] at hm
      dsimp only at hm
      split_ifs at hm with hdup
      refine ih ⟨?_, ?_⟩ hm
      · rw [List.map_append]
        refine List.nodup_append_comm.1 (List.nodup_cons.2 ⟨fun hmem => hdup ?_, h.nodup⟩)
        simpa using hmem
      · intro e he
        rcases List.mem_append.1 he with he | he
        · exact h.field e he
        · obtain rfl := List.mem_singleton.1 he
          exact ⟨f, hf, rfl⟩

/-- The fields have the references of the codec, in their order. -/
lemma Pointing.termRefs {ptrMap : List (ℕ × ℕ)} (h : Pointing objects ptrMap)
    (hformat : c.format = ptrMap.map Prod.snd) :
    (fields objects c).map (fun f => f.term.termRef) = ptrMap.map Prod.fst := by
  have hfield := h.field
  rw [fields, hformat]
  clear h hformat
  induction ptrMap with
  | nil => rfl
  | cons e ptrMap ih =>
    obtain ⟨f, hf, href⟩ := hfield e List.mem_cons_self
    rw [List.map_cons, List.filterMap_cons, hf, List.map_cons, List.map_cons, href,
      ih fun e' he' => hfield e' (List.mem_cons_of_mem _ he')]

lemma setConfig_wired {v : Vocabulary} (hv : v.Sound) {kind : FieldCodecKind}
    {config : FieldCodec.Config} (h : setConfig kind v config = .ok (objects, c)) :
    Wired objects c (fields objects c) := by
  have hmapped : Mapped objects c :=
    (setConfig_consistent hv h).2 (c, v) List.mem_cons_self
  rw [setConfig] at h
  cases hmap : mapFields v [] (start kind config) config.fields with
  | error x => simp [hmap] at h
  | ok q =>
    obtain ⟨objects', d⟩ := q
    simp only [hmap] at h
    cases hptr : pointToFields objects' d.fieldMap [] with
    | error x => simp [hptr] at h
    | ok ptrMap =>
      simp only [hptr, Except.ok.injEq, Prod.mk.injEq] at h
      obtain ⟨rfl, rfl⟩ := h
      have hnone : Pointing objects' [] := ⟨List.nodup_nil, by simp⟩
      have hpointing := pointToFields_pointing _ hnone hptr
      have hformat : d.format = ptrMap.map Prod.snd := by
        rw [pointToFields_snd _ _ (fun e he => ?_) hptr]
        · exact hmapped.format
        · obtain ⟨f, hf, -⟩ := Option.map_eq_some_iff.1 (hmapped.name e he)
          exact (List.getElem?_eq_some_iff.1 hf).1
      refine ⟨mapped_knows hmapped, fun f hf => ?_, ?_⟩
      · obtain ⟨a, ha, hobject⟩ := List.mem_filterMap.1 hf
        rw [show FieldCodec.format { d with fieldPtrMap := ptrMap } = d.format from rfl,
          hformat] at ha
        obtain ⟨e, he, rfl⟩ := List.mem_map.1 ha
        obtain ⟨f', hf', href⟩ := hpointing.field e he
        obtain rfl := Option.some.inj (hobject.symm.trans hf')
        rw [fieldOfRef, href]
        dsimp only
        rw [find?_of_nodup hpointing.nodup he, Option.map_some, Option.bind_some, hobject]
      · rw [hpointing.termRefs (c := { d with fieldPtrMap := ptrMap }) hformat]
        exact hpointing.nodup

/-! ### Reading -/

lemma feed_concat (blocks : List Bytes) (b : Bytes) :
    y.feed (blocks ++ [b]) = ((y.parse (y.feed blocks).1 b).1,
      (y.feed blocks).2 ++ (y.parse (y.feed blocks).1 b).2.1) := by
  rw [Yajl.feed, List.foldl_append]
  rfl

lemma readBlock_eq {s : Bytes} (h : ∀ b ∈ s, b ≠ 255) (n : ℕ) :
    readBlock n s = (s.take n, s.drop n) := by
  induction n generalizing s with
  | zero => rfl
  | succ n ih =>
    cases s with
    | nil => rfl
    | cons b s =>
      rw [readBlock, if_neg (h b List.mem_cons_self),
        ih fun b hb => h b (List.mem_cons_of_mem _ hb)]
      rfl

variable (y objects c) in
/-- The parser and the context behind some blocks, when `n` objects have been taken from the
queue. -/
structure Reading (blocks : List Bytes) (n : ℕ) (h : π) (k : Context) : Prop where
  handle : h = (y.feed blocks).1
  context : ∃ k₀, (y.feed blocks).2.foldlM (handler objects c) {} = some k₀ ∧
    n ≤ k₀.queue.length ∧ k = k₀.dequeue n

/-- How the loop ends: an object is queued, the stream is empty, or the array has ended. -/
def Filled.Holds (k : Context) (s : Bytes) : Filled → Prop
  | .queued => k.queue ≠ []
  | .none => s = [] ∧ k.queue = [] ∧ k.arrayEnded = false
  | .eof => k.queue = [] ∧ k.arrayEnded = true

lemma fillQueue_reading (hfs : Knows objects c fs) (hy : y.RoundTrips (document fs es))
    (fuel : ℕ) {n : ℕ} {h : π} {s : Bytes} (blocks : List Bytes) (hfuel : s.length < fuel)
    (hr : Reading y objects c blocks n h k)
    (htext : blocks.flatten ++ s <+: y.text (document fs es)) :
    ∃ q h' k' s' blocks', fillQueue y objects c fuel h k s = some (q, h', k', s') ∧
      Reading y objects c blocks' n h' k' ∧ blocks'.flatten ++ s' = blocks.flatten ++ s ∧
      q.Holds k' s' := by
  induction fuel generalizing h k s blocks with
  | zero => exact absurd hfuel (Nat.not_lt_zero _)
  | succ fuel ih =>
    rw [fillQueue]
    by_cases hqueue : k.queue = []
    swap
    · rw [if_pos hqueue]
      exact ⟨.queued, h, k, s, blocks, rfl, hr, rfl, hqueue⟩
    rw [if_neg (not_not.2 hqueue)]
    by_cases hended : k.arrayEnded = true
    · rw [if_pos hended]
      exact ⟨.eof, h, k, s, blocks, rfl, hr, rfl, hqueue, hended⟩
    have hplain : ∀ b ∈ s, b ≠ 255 := fun b hb =>
      hy.utf8.ne_of_mem (htext.subset (List.mem_append_right _ hb))
    rw [if_neg hended, readBlock_eq hplain]
    dsimp only
    cases s with
    | nil =>
      rw [List.take_nil, if_pos rfl]
      exact ⟨.none, h, k, [], blocks, rfl, hr, rfl, rfl, hqueue, by simpa using hended⟩
    | cons b s =>
      -- the next block goes to the parser, and the handlers take its calls
      have hne : (b :: s).take readBufferSize ≠ [] := by simp [readBufferSize]
      rw [if_neg hne]
      obtain ⟨rfl, k₀, hk₀, hn, rfl⟩ := hr
      have hflatten : (blocks ++ [(b :: s).take readBufferSize]).flatten ++
          (b :: s).drop readBufferSize = blocks.flatten ++ b :: s := by
        simp
      have hprefix : (blocks ++ [(b :: s).take readBufferSize]).flatten <+:
          y.text (document fs es) :=
        (List.prefix_append _ _).trans (hflatten ▸ htext)
      obtain ⟨k₁, hk₁, -⟩ := foldlM_callbacks hfs (hy.order _ hprefix)
      rw [feed_concat, List.foldlM_append, hk₀] at hk₁
      have hcalls : (y.parse (y.feed blocks).1 ((b :: s).take readBufferSize)).2.1.foldlM
          (handler objects c) k₀ = some k₁ := hk₁
      rw [foldlM_dequeue hn, hcalls, Option.map_some, Option.bind_some, hy.status _ _ hprefix,
        if_neg (by split_ifs <;> simp)]
      obtain ⟨q, h', k', s', blocks', hfill, hreading, hseen, hq⟩ := ih
        (h := (y.parse (y.feed blocks).1 ((b :: s).take readBufferSize)).1)
        (k := k₁.dequeue n) (s := (b :: s).drop readBufferSize)
        (blocks ++ [(b :: s).take readBufferSize])
        (by simp only [readBufferSize, List.length_drop, List.length_cons] at hfuel ⊢; omega)
        ⟨by rw [feed_concat], k₁, by rw [feed_concat, List.foldlM_append, hk₀]; exact hcalls,
          hn.trans (foldlM_grows hcalls).queue.length_le, rfl⟩
        (hflatten ▸ htext)
      exact ⟨q, h', k', s', blocks', hfill, hreading, hseen.trans hflatten, hq⟩

/-- The assumptions on the codec and on what it relies on. -/
structure Assumptions (y : Yajl γ π φ) (conv : LogConversions φ δ χ θ)
    (order : List (ℕ × Bytes) → List (ℕ × Bytes)) (objects : List CodecField) (c : FieldCodec)
    (fs : List CodecField) (es : List (Event φ δ χ θ)) : Prop where
  wired : Wired objects c fs
  prints : PrintsBack conv
  utf8 : ∀ s, ValidUTF8 s → conv.makeUTF8Blob s = some s
  order : ∀ o, (order o).Perm o
  writable : ∀ e ∈ es, Writable fs e
  yajl : y.RoundTrips (document fs es)

/-- When the whole text has been parsed, the array has ended. -/
lemma Reading.complete (ha : Assumptions y conv order objects c fs es) {blocks : List Bytes}
    {n : ℕ} {h : π} (hr : Reading y objects c blocks n h k)
    (htext : blocks.flatten = y.text (document fs es)) :
    k.arrayEnded = true ∧ k.queue = (es.map (objectOf fs)).drop n := by
  obtain ⟨-, k₀, hk₀, -, rfl⟩ := hr
  obtain ⟨k₁, hk₁, hhandled⟩ := foldlM_callbacks ha.wired.knows
    (ha.yajl.order blocks (htext ▸ List.prefix_rfl))
  obtain rfl := Option.some.inj (hk₀.symm.trans hk₁)
  have hended := hhandled.ended.2 (ha.yajl.complete blocks htext)
  exact ⟨hended, congrArg (List.drop n) (hhandled.complete hended)⟩

/-- What a call of `read` does: it takes the next event, or finds no event, which it does if there
is no more of them. -/
inductive Progress (fs : List CodecField) (es : List (Event φ δ χ θ)) (whole : Prop) (n : ℕ) :
    ReadResult φ δ χ θ → ℕ → Prop
  | event {e e' : Event φ δ χ θ} (he : es[n]? = some e) (hsame : SameValues fs e e') :
    Progress fs es whole n (.event e') (n + 1)
  | none (hwhole : whole → es.length ≤ n) : Progress fs es whole n .none n
  | eof (hwhole : whole → es.length ≤ n) : Progress fs es whole n .eof n

lemma nextEvent_reading (ha : Assumptions y conv order objects c fs es) {n : ℕ} {h : π} {s : Bytes}
    {blocks : List Bytes} (hr : Reading y objects c blocks n h k)
    (htext : blocks.flatten ++ s <+: y.text (document fs es)) :
    ∃ r h' k' s' blocks' n', nextEvent y conv order objects c h k s = some (r, ⟨some h', k'⟩, s') ∧
      Reading y objects c blocks' n' h' k' ∧ blocks'.flatten ++ s' = blocks.flatten ++ s ∧
      Progress fs es (blocks.flatten ++ s = y.text (document fs es)) n r n' := by
  obtain ⟨q, h', k', s', blocks', hfill, hreading, hseen, hq⟩ :=
    fillQueue_reading ha.wired.knows ha.yajl (s.length + 1) blocks (Nat.lt_succ_self _) hr htext
  rw [nextEvent, hfill, Option.bind_some]
  cases q with
  | none =>
    obtain ⟨rfl, -, hended⟩ := hq
    refine ⟨.none, h', k', [], blocks', n, rfl, hreading, hseen, .none fun hwhole => ?_⟩
    have hflatten : blocks'.flatten = y.text (document fs es) := by
      rw [← hwhole, ← hseen, List.append_nil]
    rw [(hreading.complete ha hflatten).1] at hended
    cases hended
  | eof =>
    refine ⟨.eof, h', k', s', blocks', n, rfl, hreading, hseen, .eof fun _ => ?_⟩
    obtain ⟨-, k₀, hk₀, -, rfl⟩ := hreading
    obtain ⟨k₁, hk₁, hhandled⟩ := foldlM_callbacks ha.wired.knows
      (ha.yajl.order blocks' ((List.prefix_append _ s').trans (hseen ▸ htext)))
    obtain rfl := Option.some.inj (hk₀.symm.trans hk₁)
    have hdrop : k₀.queue.drop n = [] := hq.1
    rw [hhandled.complete hq.2, ← List.map_drop, List.map_eq_nil_iff] at hdrop
    exact List.drop_eq_nil_iff.1 hdrop
  | queued =>
    obtain ⟨rfl, k₀, hk₀, hn, rfl⟩ := hreading
    obtain ⟨k₁, hk₁, hhandled⟩ := foldlM_callbacks ha.wired.knows
      (ha.yajl.order blocks' ((List.prefix_append _ s').trans (hseen ▸ htext)))
    obtain rfl := Option.some.inj (hk₀.symm.trans hk₁)
    -- the queue has the object of the next event
    have hlt : n < k₀.queue.length := by
      by_contra hge
      exact hq (List.drop_eq_nil_iff.2 (not_lt.1 hge))
    have hobject := hhandled.queue.getElem hlt
    rw [List.getElem_map] at hobject
    have hlt' : n < es.length := by
      have := hhandled.queue.length_le
      rw [List.length_map] at this
      omega
    have hhead : (k₀.dequeue n).queue.headD [] = objectOf fs es[n] := by
      rw [← hobject]
      show (k₀.queue.drop n).headD [] = k₀.queue[n]
      rw [List.drop_eq_getElem_cons hlt]
      rfl
    obtain ⟨e', hset, hsame⟩ := setValues_objectOf ha.wired ha.prints ha.utf8 ha.order
      (ha.writable es[n] (List.getElem_mem hlt'))
    refine ⟨.event e', (y.feed blocks').1, k₀.dequeue (n + 1), s', blocks', n + 1, ?_,
      ⟨rfl, k₀, hk₀, hlt, rfl⟩, hseen, .event (List.getElem?_eq_getElem hlt') hsame⟩
    dsimp only
    rw [hhead, hset, Option.map_some]
    have htail : (k₀.dequeue n).queue.tail = k₀.queue.drop (n + 1) := List.tail_drop
    rw [htail]
    rfl

/-- The state behind some calls: the characters `seen` are in the blocks and the stream, and the
first `n` events were read. -/
structure Reads (y : Yajl γ π φ) (objects : List CodecField) (c : FieldCodec)
    (fs : List CodecField) (es : List (Event φ δ χ θ)) (seen : Bytes) (n : ℕ)
    (s : State π φ δ χ θ) : Prop where
  reader : ∃ blocks, Reading y objects c blocks n (s.reader.handle.getD y.alloc) s.reader.context ∧
    blocks.flatten ++ s.stream = seen
  results : List.Forall₂ (SameValues fs) (es.take n) (events s.results)
  calm : .threw ∉ s.results

lemma events_concat (results : List (ReadResult φ δ χ θ)) (r : ReadResult φ δ χ θ) :
    events (results ++ [r]) = events results ++ events [r] := List.filterMap_append

lemma Progress.results {whole : Prop} {n n' : ℕ} {r : ReadResult φ δ χ θ}
    (h : Progress fs es whole n r n') {results : List (ReadResult φ δ χ θ)}
    (hresults : List.Forall₂ (SameValues fs) (es.take n) (events results))
    (hcalm : .threw ∉ results) :
    List.Forall₂ (SameValues fs) (es.take n') (events (results ++ [r])) ∧
      .threw ∉ results ++ [r] ∧ n ≤ n' ∧ (whole → n < es.length → n' = n + 1) := by
  rw [events_concat]
  cases h with
  | event he hsame =>
    rw [List.take_add_one, he]
    refine ⟨List.rel_append hresults (List.Forall₂.cons hsame List.Forall₂.nil), ?_,
      Nat.le_succ n, fun _ _ => rfl⟩
    simpa using hcalm
  | none hwhole | eof hwhole =>
    refine ⟨by simpa [events] using hresults, by simpa using hcalm, Nat.le_refl _, ?_⟩
    intro h hlt
    exact absurd (hwhole h) (not_le.2 hlt)

/-- Characters arrive. -/
lemma Reads.arrive {seen t : Bytes} {n : ℕ} {s : State π φ δ χ θ}
    (h : Reads y objects c fs es seen n s) :
    Reads y objects c fs es (seen ++ t) n { s with stream := s.stream ++ t } := by
  obtain ⟨⟨blocks, hr, rfl⟩, hresults, hcalm⟩ := h
  exact ⟨⟨blocks, hr, (List.append_assoc _ _ _).symm⟩, hresults, hcalm⟩

/-- A call of `read`. -/
lemma Reads.read (ha : Assumptions y conv order objects c fs es) {seen : Bytes} {n : ℕ}
    {s : State π φ δ χ θ} (h : Reads y objects c fs es seen n s)
    (hseen : seen <+: y.text (document fs es)) :
    ∃ s' n', step y conv order objects c s .read = some s' ∧
      Reads y objects c fs es seen n' s' ∧ n ≤ n' ∧
      (seen = y.text (document fs es) → n < es.length → n' = n + 1) := by
  obtain ⟨⟨blocks, hr, rfl⟩, hresults, hcalm⟩ := h
  obtain ⟨⟨handle, k⟩, stream, results⟩ := s
  dsimp only at hr hresults hcalm hseen ⊢
  -- what `read` does when it gets to the loop
  have hnext : ∀ r h' k' s' n', JSONCodec.read y conv order objects c ⟨handle, k⟩ stream =
        some (r, ⟨some h', k'⟩, s') →
      (∃ blocks', Reading y objects c blocks' n' h' k' ∧
        blocks'.flatten ++ s' = blocks.flatten ++ stream) →
      Progress fs es (blocks.flatten ++ stream = y.text (document fs es)) n r n' →
      ∃ s' n', step y conv order objects c ⟨⟨handle, k⟩, stream, results⟩ .read = some s' ∧
        Reads y objects c fs es (blocks.flatten ++ stream) n' s' ∧ n ≤ n' ∧
        (blocks.flatten ++ stream = y.text (document fs es) → n < es.length → n' = n + 1) := by
    intro r h' k' s' n' hread hreader hprogress
    obtain ⟨hres, hcalm', hle, hwhole⟩ := hprogress.results hresults hcalm
    refine ⟨⟨⟨some h', k'⟩, s', results ++ [r]⟩, n', ?_, ⟨hreader, hres, hcalm'⟩, hle, hwhole⟩
    rw [step, hread]
    rfl
  obtain ⟨r, h', k', s', blocks', n', hloop, hreading, hflatten, hprogress⟩ :=
    nextEvent_reading ha hr hseen
  by_cases hstarted : k.arrayStarted = true
  · refine hnext r h' k' s' n' ?_ ⟨blocks', hreading, hflatten⟩ hprogress
    rw [JSONCodec.read]
    dsimp only
    rw [if_pos hstarted, hloop]
  · -- nothing has gone to the parser, and the stream starts with the array
    have hempty : blocks.flatten = [] := by
      by_contra hne
      obtain ⟨-, k₀, hk₀, -, rfl⟩ := hr
      have hprefix := (List.prefix_append blocks.flatten stream).trans hseen
      obtain ⟨k₁, hk₁, hhandled⟩ := foldlM_callbacks ha.wired.knows
        (ha.yajl.order blocks hprefix)
      obtain rfl := Option.some.inj (hk₀.symm.trans hk₁)
      exact hstarted (hhandled.started.2 (ha.yajl.starts blocks hprefix hne))
    cases stream with
    | nil =>
      refine hnext .none (handle.getD y.alloc) k [] n ?_ ⟨blocks, hr, rfl⟩ (.none ?_)
      · rw [JSONCodec.read]
        dsimp only
        rw [if_neg hstarted]
        rfl
      · intro hwhole
        rw [hempty, List.nil_append] at hwhole
        have harray := ha.yajl.array
        rw [← hwhole] at harray
        cases harray
    | cons b stream =>
      have hb : b = 91 := by
        have harray := ha.yajl.array
        obtain ⟨rest, hrest⟩ := hseen
        rw [hempty] at hrest
        rw [← hrest] at harray
        exact Option.some.inj harray
      refine hnext r h' k' s' n' ?_ ⟨blocks', hreading, hflatten⟩ hprogress
      rw [JSONCodec.read]
      dsimp only
      rw [if_neg hstarted, hb, List.dropWhile_cons_of_neg (by decide)]
      dsimp only
      rw [if_pos rfl, ← hb, hloop]

lemma run_reads (ha : Assumptions y conv order objects c fs es) (calls : List Call) {seen : Bytes}
    {n : ℕ} {s : State π φ δ χ θ} (h : Reads y objects c fs es seen n s)
    (hseen : seen ++ arrived calls <+: y.text (document fs es)) :
    ∃ s' n', run (step y conv order objects c) s calls = some s' ∧
      Reads y objects c fs es (seen ++ arrived calls) n' s' := by
  induction calls generalizing seen n s with
  | nil =>
    refine ⟨s, n, rfl, ?_⟩
    rwa [arrived, List.append_nil]
  | cons call calls ih =>
    cases call with
    | arrive t =>
      rw [arrived, ← List.append_assoc] at hseen ⊢
      exact ih h.arrive hseen
    | read =>
      obtain ⟨s₁, n₁, hstep, h₁, -⟩ := h.read ha ((List.prefix_append _ _).trans hseen)
      obtain ⟨s', n', hrun, h'⟩ := ih h₁ hseen
      refine ⟨s', n', ?_, h'⟩
      rw [run_cons, hstep, Option.bind_some, hrun]

/-- When the whole text is there, each call takes an event, until there are no more. -/
lemma run_replicate (ha : Assumptions y conv order objects c fs es) (m : ℕ) {seen : Bytes} {n : ℕ}
    {s : State π φ δ χ θ} (h : Reads y objects c fs es seen n s)
    (hseen : seen <+: y.text (document fs es)) :
    ∃ s' n', run (step y conv order objects c) s (List.replicate m .read) = some s' ∧
      Reads y objects c fs es seen n' s' ∧
      (seen = y.text (document fs es) → min (n + m) es.length ≤ n') := by
  induction m generalizing n s with
  | zero => exact ⟨s, n, rfl, h, fun _ => Nat.min_le_left _ _⟩
  | succ m ih =>
    obtain ⟨s₁, n₁, hstep, h₁, hle, hnext⟩ := h.read ha hseen
    obtain ⟨s', n', hrun, h', hmin⟩ := ih h₁
    refine ⟨s', n', ?_, h', fun hwhole => ?_⟩
    · rw [List.replicate_succ, run_cons, hstep, Option.bind_some, hrun]
    · have := hmin hwhole
      have := hnext hwhole
      omega

/-- Nothing is written without events, and nothing is read. -/
lemma run_nothing (y : Yajl γ π φ) (conv : LogConversions φ δ χ θ)
    (order : List (ℕ × Bytes) → List (ℕ × Bytes)) (objects : List CodecField) (c : FieldCodec)
    (calls : List Call) (hcalls : arrived calls = []) {s : State π φ δ χ θ}
    (hreader : s.reader.context.arrayStarted = false) (hstream : s.stream = [])
    (hevents : events s.results = []) (hcalm : .threw ∉ s.results) :
    ∃ s', run (step y conv order objects c) s calls = some s' ∧ events s'.results = [] ∧
      .threw ∉ s'.results := by
  induction calls generalizing s with
  | nil => exact ⟨s, rfl, hevents, hcalm⟩
  | cons call calls ih =>
    cases call with
    | arrive t =>
      obtain ⟨rfl, hrest⟩ := List.append_eq_nil_iff.1 hcalls
      exact ih hrest hreader (by simpa using hstream) hevents hcalm
    | read =>
      obtain ⟨⟨handle, k⟩, stream, results⟩ := s
      obtain rfl : stream = [] := hstream
      have hread : JSONCodec.read y conv order objects c ⟨handle, k⟩ [] =
          some (.none, ⟨some (handle.getD y.alloc), k⟩, []) := by
        rw [JSONCodec.read]
        dsimp only
        rw [if_neg (by simpa using hreader)]
        rfl
      obtain ⟨s', hrun, h'⟩ := ih hcalls
        (s := ⟨⟨some (handle.getD y.alloc), k⟩, [], results ++ [.none]⟩) hreader rfl
        (by rw [events_concat, hevents]; rfl) (by simpa using hcalm)
      refine ⟨s', ?_, h'⟩
      rw [run_cons, step, hread, Option.map_some, Option.bind_some, hrun]

lemma arrived_append (calls calls' : List Call) :
    arrived (calls ++ calls') = arrived calls ++ arrived calls' := by
  induction calls with
  | nil => rfl
  | cons call calls ih =>
    cases call with
    | arrive t => rw [List.cons_append, arrived, ih, arrived, List.append_assoc]
    | read => exact ih

lemma arrived_replicate (m : ℕ) : arrived (List.replicate m .read) = [] := by
  induction m with
  | zero => rfl
  | succ m ih => exact ih

/-- The writer finishes with a text from which every sequence of calls reads the first events,
whatever has arrived before each of them: the events come in their order, each with the values of
the mapped terms, and without an exception.  When the whole text has arrived, each further call
reads an event until all of them are there. -/
theorem json_round_trip (y : Yajl γ π φ) (print : LogPrinters φ δ χ θ)
    (conv : LogConversions φ δ χ θ) (order : List (ℕ × Bytes) → List (ℕ × Bytes))
    {edits : List Vocabulary.Edit} {config : FieldCodec.Config} {objects : List CodecField}
    {c : FieldCodec} {es : List (Event φ δ χ θ)}
    (hconfig : setConfig .json (Vocabulary.make edits) config = .ok (objects, c))
    (hnames : ∀ f ∈ fields objects c, ValidUTF8 f.fieldName)
    (hes : ∀ e ∈ es, Writable (fields objects c) e) (hconv : PrintsBack conv)
    (hutf8 : ∀ s, ValidUTF8 s → conv.makeUTF8Blob s = some s) (horder : ∀ o, (order o).Perm o)
    (hyajl : (document (fields objects c) es).Valid →
      y.RoundTrips (document (fields objects c) es)) :
    ∃ out, writeAll y print (fields objects c) es = some out ∧
      ∀ (calls : List Call) (m : ℕ), arrived calls <+: out →
        ∃ s n, run (step y conv order objects c) {} (calls ++ List.replicate m .read) = some s ∧
          .threw ∉ s.results ∧
          List.Forall₂ (SameValues (fields objects c)) (es.take n) (events s.results) ∧
          (arrived calls = out → min m es.length ≤ n) := by
  refine ⟨_, writeAll_eq hes, fun calls m hcalls => ?_⟩
  by_cases hempty : es = []
  · subst hempty
    rw [if_pos rfl, List.prefix_nil] at hcalls
    have hnone : arrived (calls ++ List.replicate m .read) = [] := by
      rw [arrived_append, hcalls, arrived_replicate, List.append_nil]
    obtain ⟨s, hrun, hevents, hcalm⟩ := run_nothing y conv order objects c _ hnone
      (s := {}) rfl rfl rfl List.not_mem_nil
    refine ⟨s, 0, hrun, hcalm, ?_, fun _ => by simp⟩
    rw [hevents]
    exact List.Forall₂.nil
  · rw [if_neg hempty] at hcalls ⊢
    have ha : Assumptions y conv order objects c (fields objects c) es :=
      ⟨setConfig_wired (Vocabulary.sound_make edits) hconfig, hconv, hutf8, horder, hes,
        hyajl (Writable.valid hnames hes)⟩
    have hstart : Reads y objects c (fields objects c) es [] 0 ({} : State π φ δ χ θ) :=
      ⟨⟨[], ⟨rfl, {}, rfl, Nat.le_refl 0, rfl⟩, rfl⟩, List.Forall₂.nil, List.not_mem_nil⟩
    obtain ⟨s₁, n₁, hrun₁, h₁⟩ := run_reads ha calls hstart hcalls
    obtain ⟨s, n, hrun, h, hmin⟩ := run_replicate ha m h₁ hcalls
    refine ⟨s, n, ?_, h.calm, h.results, fun hwhole => ?_⟩
    · rw [run_append, hrun₁, Option.bind_some, hrun]
    · exact (min_le_min_right _ (Nat.le_add_left m n₁)).trans (hmin hwhole)

/-! ### A small yajl -/

/-- Where the generator is in the maps and arrays that are open. -/
inductive GenMode where
  | start
  | mapStart
  | mapKey
  | mapVal
  | arrayStart
  | inArray
  | complete
deriving DecidableEq

/-- What the generator prints before a token, with the depth of the token. -/
def before (mode : GenMode) (depth : ℕ) : Bytes :=
  match mode with
  | .mapVal => ascii ": "
  | .mapKey | .inArray => ascii ",\n" ++ List.replicate depth 9
  | _ => List.replicate depth 9

/-- The mode behind a token. -/
def appended : GenMode → GenMode
  | .start => .complete
  | .mapStart | .mapKey => .mapVal
  | .arrayStart => .inArray
  | .mapVal => .mapKey
  | mode => mode

/-- The generator with indentation, for strings without characters that are escaped. -/
def smallGen (modes : List GenMode) : GenCall Unit → List GenMode × Bytes
  | .arrayOpen =>
    (.arrayStart :: modes, before (modes.headD .complete) modes.tail.length ++ ascii "[\n")
  | .mapOpen =>
    (.mapStart :: modes, before (modes.headD .complete) modes.tail.length ++ ascii "\x7b\n")
  | .string s =>
    (appended (modes.headD .complete) :: modes.tail,
      before (modes.headD .complete) modes.tail.length ++ 34 :: s ++ [34])
  | .integer n =>
    (appended (modes.headD .complete) :: modes.tail,
      before (modes.headD .complete) modes.tail.length ++ decimal n)
  | .double _ => (modes, [])
  | .mapClose =>
    (appended (modes.tail.headD .complete) :: modes.tail.tail,
      10 :: List.replicate modes.tail.tail.length 9 ++ ascii "\x7d")
  | .arrayClose =>
    (appended (modes.tail.headD .complete) :: modes.tail.tail,
      10 :: List.replicate modes.tail.tail.length 9 ++ ascii "]\n")

/-- The token that the parser is in. -/
inductive Lex where
  | idle
  | string (s : Bytes)
  | number (s : Bytes)
deriving DecidableEq

/-- The parser of an array of maps. -/
structure SmallParser where
  lex : Lex := .idle
  key : Bool := false
  inMap : Bool := false
  done : Bool := false
deriving DecidableEq

/-- A character between the tokens. -/
def smallIdle (p : SmallParser) (b : Byte) : SmallParser × List Callback :=
  if p.done then (p, [])
  else if b = 91 then (p, [.startArray])
  else if b = 93 then ({ p with done := true }, [.endArray])
  else if b = 123 then ({ p with inMap := true, key := true }, [.startMap])
  else if b = 125 then ({ p with inMap := false }, [.endMap])
  else if b = 58 then ({ p with key := false }, [])
  else if b = 44 then ({ p with key := p.inMap }, [])
  else if b = 34 then ({ p with lex := .string [] }, [])
  else if b = 45 ∨ isDigit b then ({ p with lex := .number [b] }, [])
  else (p, [])

def smallStep (p : SmallParser) (b : Byte) : SmallParser × List Callback :=
  match p.lex with
  | .string s =>
    if b = 34 then ({ p with lex := .idle }, [if p.key then .mapKey s else .string s])
    else ({ p with lex := .string (s ++ [b]) }, [])
  | .number s =>
    if isDigit b then ({ p with lex := .number (s ++ [b]) }, [])
    else ((smallIdle { p with lex := .idle } b).1,
      .number s :: (smallIdle { p with lex := .idle } b).2)
  | .idle => smallIdle p b

def smallParse (p : SmallParser) : Bytes → SmallParser × List Callback
  | [] => (p, [])
  | b :: s =>
    ((smallParse (smallStep p b).1 s).1, (smallStep p b).2 ++ (smallParse (smallStep p b).1 s).2)

def smallYajl : Yajl (List GenMode) SmallParser Unit where
  genAlloc := [.start]
  gen := smallGen
  alloc := {}
  parse p s :=
    ((smallParse p s).1, (smallParse p s).2,
      if (smallParse p s).1.done then .ok else .insufficientData)

lemma smallParse_append (p : SmallParser) (s t : Bytes) :
    smallParse p (s ++ t) =
      ((smallParse (smallParse p s).1 t).1,
        (smallParse p s).2 ++ (smallParse (smallParse p s).1 t).2) := by
  induction s generalizing p with
  | nil => rfl
  | cons b s ih =>
    rw [List.cons_append, smallParse, ih, smallParse, List.append_assoc]

/-- The blocks do not matter. -/
lemma feed_smallYajl (blocks : List Bytes) :
    smallYajl.feed blocks = smallParse {} blocks.flatten := by
  induction blocks using List.reverseRecOn with
  | nil => rfl
  | append_singleton blocks b ih =>
    rw [feed_concat, ih, List.flatten_append, List.flatten_singleton, smallParse_append]
    rfl

/-- A document on which the parser makes the right calls for every beginning of the text. -/
lemma roundTrips_smallYajl {d : JSONDocument} (harray : (smallYajl.text d).head? = some 91)
    (hascii : ∀ b ∈ smallYajl.text d, b < 128)
    (hall : ∀ s ∈ (smallYajl.text d).inits, (smallParse {} s).2 <+: d.callbacks ∧
      (s ≠ [] → (smallParse {} s).2 ≠ []) ∧
      ((smallParse {} s).1.done = true ↔ (smallParse {} s).2 = d.callbacks))
    (hdone : (smallParse {} (smallYajl.text d)).1.done = true) : smallYajl.RoundTrips d where
  array := harray
  utf8 := ValidUTF8.of_ascii hascii
  order blocks h := by
    rw [feed_smallYajl]
    exact (hall _ ((List.mem_inits _ _).2 h)).1
  starts blocks h hne := by
    rw [feed_smallYajl]
    exact (hall _ ((List.mem_inits _ _).2 h)).2.1 hne
  complete blocks h := by
    rw [feed_smallYajl]
    exact (hall _ ((List.mem_inits _ _).2 (h ▸ List.prefix_rfl))).2.2.1 (h ▸ hdone)
  status blocks block h := by
    have hstatus := (hall _ ((List.mem_inits _ _).2 h)).2.2
    have hblock : (smallParse {} (blocks ++ [block]).flatten).1 =
        (smallParse (smallParse {} blocks.flatten).1 block).1 := by
      rw [List.flatten_append, List.flatten_singleton, smallParse_append]
    rw [feed_smallYajl, feed_smallYajl]
    refine ite_congr (propext ?_) (fun _ => rfl) fun _ => rfl
    rw [← hstatus, hblock]

def jsonConfig : FieldCodec.Config := { fields := [(ascii "x", ascii "a"), (ascii "y", ascii "b")] }

def jsonEdits : List Vocabulary.Edit :=
  [.addTerm { termId := ascii "a", termType := .int32 },
    .addTerm { termId := ascii "b", termType := .string }]

/-- An event with two strings, and one that has none of the mapped terms. -/
def jsonEvents : List (Event Unit Unit Unit Unit) :=
  [[(1, .int32 (-7)), (2, .blob (ascii "p")), (2, .blob (ascii "q"))], [(3, .int32 1)]]

def jsonFields : List CodecField :=
  [⟨ascii "x", { termId := ascii "a", termRef := 1, termType := .int32 }, []⟩,
    ⟨ascii "y", { termId := ascii "b", termRef := 2, termType := .string }, []⟩]

def jsonCodec : FieldCodec :=
  { kind := .json
    fieldMap := [(ascii "x", 0), (ascii "y", 1)]
    format := [0, 1]
    fieldPtrMap := [(1, 0), (2, 1)] }

def jsonText : Bytes :=
  ascii "[\n\t\x7b\n\t\t\"x\": -7,\n\t\t\"y\": \"p\",\n\t\t\"y\": \"q\"\n\t\x7d,\n\t" ++
    ascii "\x7b\n\n\t\x7d\n]\n"

lemma writable_jsonEvents : ∀ e ∈ jsonEvents, Writable jsonFields e := by
  have hchar : ∀ b : Byte, b < 128 → ValidUTF8 [b] := fun b hb =>
    ValidUTF8.of_ascii fun c hc => List.mem_singleton.1 hc ▸ hb
  intro e he
  simp only [jsonEvents, List.mem_cons, List.not_mem_nil, or_false] at he
  rcases he with rfl | rfl
  · refine ⟨by simp [Sorted], fun f hf v hv => ?_⟩
    simp only [jsonFields, List.mem_cons, List.not_mem_nil, or_false] at hf
    rcases hf with rfl | rfl
    · obtain rfl : v = .int32 (-7) := by simpa [values] using hv
      trivial
    · rcases (by simpa [values] using hv : v = .blob (ascii "p") ∨ v = .blob (ascii "q"))
        with rfl | rfl
      · exact hchar 112 (by decide)
      · exact hchar 113 (by decide)
  · refine ⟨by simp [Sorted], fun f hf v hv => ?_⟩
    simp only [jsonFields, List.mem_cons, List.not_mem_nil, or_false] at hf
    rcases hf with rfl | rfl <;> simp [values] at hv

/-- The events are read from the text that yajl prints for them, however it arrives. -/
theorem json_round_trip_small :
    writeAll smallYajl noPrinters jsonFields jsonEvents = some jsonText ∧
      ∃ out, writeAll smallYajl noPrinters (fields jsonFields jsonCodec) jsonEvents = some out ∧
        ∀ (calls : List Call) (m : ℕ), arrived calls <+: out →
          ∃ s n, run (step smallYajl signedDecimals id jsonFields jsonCodec) {}
              (calls ++ List.replicate m .read) = some s ∧
            .threw ∉ s.results ∧
            List.Forall₂ (SameValues (fields jsonFields jsonCodec)) (jsonEvents.take n)
              (events s.results) ∧
            (arrived calls = out → min m jsonEvents.length ≤ n) := by
  have htext : smallYajl.text (document jsonFields jsonEvents) = jsonText := by decide +kernel
  refine ⟨by decide +kernel, ?_⟩
  have hconfig : setConfig .json (Vocabulary.make jsonEdits) jsonConfig =
      .ok (jsonFields, jsonCodec) := by
    decide +kernel
  refine json_round_trip smallYajl noPrinters signedDecimals id hconfig ?_ writable_jsonEvents
    printsBack_signedDecimals (fun _ _ => rfl) (fun _ => List.Perm.refl _)
    fun _ => roundTrips_smallYajl ?_ ?_ ?_ ?_
  · intro f hf
    have hmem : f ∈ jsonFields := hf
    simp only [jsonFields, List.mem_cons, List.not_mem_nil, or_false] at hmem
    rcases hmem with rfl | rfl <;> exact ValidUTF8.of_ascii (by decide +kernel)
  all_goals decide +kernel

end JSONCodec

end PionCore.Platform
