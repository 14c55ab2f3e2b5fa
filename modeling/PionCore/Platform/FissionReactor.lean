/-
# The fission reactor

`FissionReactor` takes the values of a term of an event for texts, and delivers the events that a
codec reads from them.  It has one codec for all values of all events, so that the events are those
of a new codec for each value as long as no value but the last one leaves a trace in the codec, and
none but the last one of an event throws.

The reactor is running.
-/
import PionCore.Platform.TextCodecs
import PionCore.Platform.XMLRoundTrip

namespace PionCore.Platform

open PionCore.Lib PionCore.Common

/-- `FissionReactor`, without its codec. -/
structure FissionReactor where
  inputEventType : ℕ
  inputEventTerm : ℕ
  copyAllTerms : Bool := false
  copyTerms : List ℕ := []

namespace FissionReactor

variable {φ δ χ θ σ : Type*} (f : FissionReactor) (codec : TextCodec σ (Event φ δ χ θ))

/-- The texts of the input term, which has a type of texts. -/
def texts (e : Event φ δ χ θ) : List Bytes :=
  (SortedMultimap.values f.inputEventTerm e).filterMap fun
    | .blob s => some s
    | _ => none

/-- A new event gets terms of the original one. -/
def copy (e new : Event φ δ χ θ) : Event φ δ χ θ :=
  if f.copyAllTerms then new.addAll e
  else f.copyTerms.foldl (fun new ref => new.copyValues e ref) new

/-- `process` of an event with its type: the events that are delivered, how the last value ends, and
the codec behind the call.  An exception leaves the rest of the values. -/
def process (s : σ) (e : ℕ × Event φ δ χ θ) : List (Event φ δ χ θ) × ReadEnd × σ :=
  if e.1 = f.inputEventType then
    ((codec.drainAll (f.texts e.2) s).1.map (f.copy e.2), (codec.drainAll (f.texts e.2) s).2)
  else ([], .stopped, s)

/-- The events that are delivered for a sequence of events. -/
def processAll : List (ℕ × Event φ δ χ θ) → σ → List (Event φ δ χ θ)
  | [], _ => []
  | e :: es, s =>
    (f.process codec s e).1 ++
      if (f.process codec s e).2.1 = .undefined then []
      else processAll es (f.process codec s e).2.2

/-- The events of the input type. -/
def inputs (es : List (ℕ × Event φ δ χ θ)) : List (Event φ δ χ θ) :=
  (es.filter fun e => e.1 = f.inputEventType).map Prod.snd

/-- What is delivered are the events that a new codec reads from each value alone. -/
def Concatenates (es : List (ℕ × Event φ δ χ θ)) : Prop :=
  f.processAll codec es codec.start = (f.inputs es).flatMap fun e =>
    ((f.texts e).flatMap fun w => (codec.alone w).1).map (f.copy e)

variable {f codec}

lemma processAll_eq (es : List (ℕ × Event φ δ χ θ)) (s : σ) :
    f.processAll codec es s =
      codec.drainLists ((f.inputs es).map fun e => (f.texts e, f.copy e)) s := by
  induction es generalizing s with
  | nil => rfl
  | cons e es ih =>
    by_cases he : e.1 = f.inputEventType
    · have hinputs : f.inputs (e :: es) = e.2 :: f.inputs es := by simp [inputs, he]
      have hprocess : f.process codec s e = ((codec.drainAll (f.texts e.2) s).1.map (f.copy e.2),
          (codec.drainAll (f.texts e.2) s).2) := if_pos he
      rw [processAll, hprocess, hinputs, ih, List.map_cons, TextCodec.drainLists]
    · have hinputs : f.inputs (e :: es) = f.inputs es := by simp [inputs, he]
      have hprocess : f.process codec s e = ([], .stopped, s) := if_neg he
      rw [processAll, hprocess, hinputs, ih, if_neg (by simp), List.nil_append]

/-- Values that do not get into each other's way. -/
lemma concatenates_of_reuse (r : codec.Reuse) {es : List (ℕ × Event φ δ χ θ)}
    (h : r.Separate ((f.inputs es).map f.texts)) : f.Concatenates codec es := by
  have hfst : ((f.inputs es).map fun e => (f.texts e, f.copy e)).map Prod.fst =
      (f.inputs es).map f.texts := by
    rw [List.map_map]
    rfl
  rw [Concatenates, processAll_eq, r.drainLists_eq (hfst ▸ h) r.start, List.flatMap_map]

/-- What the reactor delivers, with a JSON codec, an XML codec and a log codec. -/
theorem concatenates {γ π ω : Type*} (f : FissionReactor) (es : List (ℕ × Event φ δ χ θ))
    (conv : LogConversions φ δ χ θ) (y : Yajl γ π φ)
    (order : List (ℕ × Bytes) → List (ℕ × Bytes)) (x : LibXML ω) (objects : List CodecField)
    (c : FieldCodec) (stale : List Bytes → Bytes → Bytes) (l : LogCodec) :
    ((JSONCodec.reuse y conv order objects c).Separate ((f.inputs es).map f.texts) →
        f.Concatenates (JSONCodec.textCodec y conv order objects c) es) ∧
      ((XMLCodec.reuse x conv objects c).Separate ((f.inputs es).map f.texts) →
        f.Concatenates (XMLCodec.textCodec x conv objects c) es) ∧
      ((LogCodec.reuse conv stale l).Separate ((f.inputs es).map f.texts) →
        f.Concatenates (LogCodec.textCodec conv stale l) es) :=
  ⟨concatenates_of_reuse _, concatenates_of_reuse _, concatenates_of_reuse _⟩

/-- An event with some values of the term 5, and a reactor for it. -/
def fissionInput (ws : List Bytes) : ℕ × Event Unit Unit Unit Unit :=
  (4, ws.map fun w => (5, .blob w))

def smallFission : FissionReactor := { inputEventType := 4, inputEventTerm := 5 }

/-- One array, one document, and two texts without headers. -/
theorem concatenates_one :
    smallFission.Concatenates (JSONCodec.textCodec JSONCodec.smallYajl LogCodec.signedDecimals id
        JSONCodec.jsonFields JSONCodec.jsonCodec) [fissionInput [JSONCodec.jsonText]] ∧
      smallFission.Concatenates (XMLCodec.textCodec XMLCodec.smallXML LogCodec.signedDecimals
        XMLCodec.xmlFields XMLCodec.xmlCodec) [fissionInput [ascii "<Events></Events>"]] ∧
      smallFission.Concatenates (LogCodec.textCodec LogCodec.decimals (fun _ _ => [])
        LogCodec.twoNumbers) [fissionInput [ascii "1 2\n"], fissionInput [ascii "3 4\n"]] := by
  have hall := fun (es : List (ℕ × Event Unit Unit Unit Unit)) conv objects c =>
    concatenates smallFission es conv JSONCodec.smallYajl id XMLCodec.smallXML objects c
      (fun _ _ => []) LogCodec.twoNumbers
  refine ⟨(hall _ _ _ _).1 ?_, (hall _ _ _ _).2.1 ?_, (hall _ _ [] JSONCodec.jsonCodec).2.2 ?_⟩
  · exact TextCodec.Reuse.separate_single _ trivial
  · exact TextCodec.Reuse.separate_single _ trivial
  · refine ⟨fun _ _ => Or.inl rfl, fun _ _ => Or.inl rfl, fun ws hws w hw => ?_⟩
    have hlist : ws ∈ [[ascii "1 2\n"], [ascii "3 4\n"]] := hws
    simp only [List.mem_cons, List.not_mem_nil, or_false] at hlist
    rcases hlist with rfl | rfl <;> exact absurd hw (by simp)

/-- Two values of one event.  The parser has seen the end of an array when it gets the second
one. -/
theorem not_concatenates :
    ¬ smallFission.Concatenates (JSONCodec.textCodec JSONCodec.smallYajl LogCodec.signedDecimals id
      JSONCodec.jsonFields JSONCodec.jsonCodec)
      [fissionInput [ascii "[\x7b\"x\": 1\x7d]", ascii "[\x7b\"x\": 2\x7d]"]] := by
  set codec := JSONCodec.textCodec JSONCodec.smallYajl LogCodec.signedDecimals id
    JSONCodec.jsonFields JSONCodec.jsonCodec
  have htogether : (codec.drainWithin 2 (codec.feed codec.start (ascii "[\x7b\"x\": 1\x7d]"))).bind
      (fun a => (codec.drainWithin 1 (codec.feed a.2.2 (ascii "[\x7b\"x\": 2\x7d]"))).map fun b =>
        (a.1.length, a.2.1, b.1.length)) = some (1, .stopped, 0) := by decide +kernel
  have hsecond : (codec.drain (codec.feed codec.start (ascii "[\x7b\"x\": 2\x7d]"))).1.length = 1 :=
    TextCodec.apply_drain 2 (fun x => x.1.length) (by decide +kernel)
  obtain ⟨a, ha, hb⟩ := Option.bind_eq_some_iff.1 htogether
  obtain ⟨b, hb, hab⟩ := Option.map_eq_some_iff.1 hb
  obtain ⟨ha1, hstopped, hb1⟩ := by simpa using hab
  intro h
  rw [Concatenates, processAll_eq] at h
  have hfirst := TextCodec.drain_of_drainWithin ha
  have hafter := TextCodec.drain_of_drainWithin hb
  have hlen := congrArg List.length h
  simp [smallFission, fissionInput, inputs, texts, SortedMultimap.values, TextCodec.drainLists,
    TextCodec.drainAll, TextCodec.alone, hfirst, hafter, hstopped, ha1, hb1, hsecond] at hlen
  split_ifs at hlen
  · simp at hlen
  · simp [hb1] at hlen

end FissionReactor

end PionCore.Platform
