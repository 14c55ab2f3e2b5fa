/-
# Codecs that read one stream after the other

A reactor keeps one codec and hands it stream after stream.  What a codec keeps of a stream: the
JSON codec its parser with the array that has been started, the XML codec its reader of the first
stream, and the log codec the format of the last header.
-/
import PionCore.Lib.TextCodec
import PionCore.Platform.JSONCodec
import PionCore.Platform.LogReader
import PionCore.Platform.XMLCodec

namespace PionCore.Platform

open PionCore.Lib PionCore.Common

variable {φ δ χ θ : Type*}

/-! ### The JSON codec -/

namespace JSONCodec

variable {γ π : Type*} (y : Yajl γ π φ) (conv : LogConversions φ δ χ θ)
  (order : List (ℕ × Bytes) → List (ℕ × Bytes)) (objects : List CodecField) (c : FieldCodec)

/-- The codec with its stream. -/
structure Source (π : Type*) where
  reader : Reader π := {}
  stream : Bytes := []
  eof : Bool := false

/-- A call of `read`, which sets the end of the stream behind the array. -/
def readSource (s : Source π) : ReadStep (Event φ δ χ θ) × Source π :=
  match read y conv order objects c s.reader s.stream with
  | none => (.undefined, s)
  | some (.event e, r, rest) => (.value e, { s with reader := r, stream := rest })
  | some (.none, r, rest) => (.stop, { s with reader := r, stream := rest })
  | some (.eof, r, rest) => (.stop, ⟨r, rest, true⟩)
  | some (.threw, r, rest) => (.threw, { s with reader := r, stream := rest })

def Source.size (s : Source π) : ℕ × ℕ := (s.stream.length, s.reader.context.queue.length)

lemma length_readBlock (n : ℕ) (s : Bytes) :
    (readBlock n s).1.length + (readBlock n s).2.length ≤ s.length := by
  induction n generalizing s with
  | zero => simp [readBlock]
  | succ n ih =>
    cases s with
    | nil => simp [readBlock]
    | cons b s =>
      rw [readBlock]
      split_ifs
      · simp
      · have := ih s
        simp only [List.length_cons]
        omega

variable {y conv order objects c}

/-- The queue is filled by characters of the stream. -/
lemma fillQueue_shrinks {fuel : ℕ} {h h' : π} {k k' : Context} {s s' : Bytes}
    (hfill : fillQueue y objects c fuel h k s = some (.queued, h', k', s')) :
    k'.queue ≠ [] ∧ (s' = s ∧ k' = k ∨ s'.length < s.length) := by
  induction fuel generalizing h k s with
  | zero => simp [fillQueue] at hfill
  | succ fuel ih =>
    rw [fillQueue] at hfill
    by_cases hqueue : k.queue ≠ []
    · rw [if_pos hqueue] at hfill
      obtain ⟨-, rfl, rfl⟩ := by simpa using hfill
      exact ⟨hqueue, Or.inl ⟨rfl, rfl⟩⟩
    rw [if_neg hqueue] at hfill
    by_cases hended : k.arrayEnded = true
    · rw [if_pos hended] at hfill
      simp at hfill
    rw [if_neg hended] at hfill
    by_cases hblock : (readBlock readBufferSize s).1 = []
    · rw [if_pos hblock] at hfill
      simp at hfill
    rw [if_neg hblock, Option.bind_eq_some_iff] at hfill
    obtain ⟨k₁, -, hfill⟩ := hfill
    by_cases herror : (y.parse h (readBlock readBufferSize s).1).2.2 = .error
    · rw [if_pos herror] at hfill
      simp at hfill
    rw [if_neg herror] at hfill
    obtain ⟨hne, hrest⟩ := ih hfill
    have hlen := length_readBlock readBufferSize s
    have hpos := List.length_pos_of_ne_nil hblock
    refine ⟨hne, Or.inr ?_⟩
    rcases hrest with ⟨rfl, -⟩ | hlt <;> omega

lemma nextEvent_shrinks {h : π} {k : Context} {s s' : Bytes} {e : Event φ δ χ θ} {r : Reader π}
    (hnext : nextEvent y conv order objects c h k s = some (.event e, r, s')) :
    s' = s ∧ r.context.queue.length < k.queue.length ∨ s'.length < s.length := by
  rw [nextEvent, Option.bind_eq_some_iff] at hnext
  obtain ⟨⟨filled, h', k', rest⟩, hfill, hnext⟩ := hnext
  cases filled with
  | none => simp at hnext
  | eof => simp at hnext
  | queued =>
    obtain ⟨hne, hrest⟩ := fillQueue_shrinks hfill
    obtain ⟨result, -, hresult⟩ := Option.map_eq_some_iff.1 hnext
    obtain ⟨-, rfl, rfl⟩ := by simpa using hresult
    rcases hrest with ⟨rfl, rfl⟩ | hlt
    · refine Or.inl ⟨rfl, ?_⟩
      have := List.length_pos_of_ne_nil hne
      simp only [List.length_tail]
      omega
    · exact Or.inr hlt

lemma read_shrinks {r r' : Reader π} {s s' : Bytes} {e : Event φ δ χ θ}
    (hread : read y conv order objects c r s = some (.event e, r', s')) :
    s' = s ∧ r'.context.queue.length < r.context.queue.length ∨ s'.length < s.length := by
  rw [read] at hread
  by_cases hstarted : r.context.arrayStarted = true
  · rw [if_pos hstarted] at hread
    exact nextEvent_shrinks hread
  · rw [if_neg hstarted] at hread
    have hlen : (s.dropWhile isWhitespace).length ≤ s.length :=
      (List.dropWhile_suffix _).length_le
    cases hdrop : s.dropWhile isWhitespace with
    | nil => simp [hdrop] at hread
    | cons b t =>
      simp only [hdrop] at hread hlen
      by_cases hb : b = 91
      · rw [if_pos hb] at hread
        rcases nextEvent_shrinks hread with ⟨rfl, hlt⟩ | hlt
        · by_cases heq : s = b :: t
          · exact Or.inl ⟨heq.symm, hlt⟩
          · refine Or.inr (lt_of_le_of_ne hlen fun hlength => heq ?_)
            have hsuffix : s.dropWhile isWhitespace <:+ s := List.dropWhile_suffix _
            rw [← hsuffix.eq_of_length (by rw [hdrop, hlength]), hdrop]
        · exact Or.inr (hlt.trans_le hlen)
      · rw [if_neg hb] at hread
        simp at hread

variable (y conv order objects c) in
/-- The JSON codec. -/
def textCodec : TextCodec (Source π) (Event φ δ χ θ) where
  start := {}
  feed s w := { reader := s.reader, stream := w }
  read := readSource y conv order objects c
  eof := Source.eof
  size := Source.size
  shrinks s e s' h := by
    rw [readSource] at h
    split at h
    · cases h
    · rename_i e' r rest hread
      obtain ⟨-, rfl⟩ := Prod.mk.inj h
      rw [Prod.lex_def]
      rcases read_shrinks hread with ⟨rfl, hlt⟩ | hlt
      · exact Or.inr ⟨rfl, hlt⟩
      · exact Or.inl hlt
    all_goals cases h

/-- The reader has started no array, and its parser has seen nothing. -/
def Source.Unstarted (y : Yajl γ π φ) (s : Source π) : Prop :=
  s.reader.context = {} ∧ s.reader.handle.getD y.alloc = y.alloc

/-- The first character that is not white space does not start an array. -/
def StartsNoArray (w : Bytes) : Prop := (w.dropWhile isWhitespace).head? ≠ some 91

variable (y conv order objects c) in
/-- A reader that has started no array is as good as a new one. -/
lemma readSource_congr {s t : Source π}
    (h : s.reader.context = t.reader.context ∧
      s.reader.handle.getD y.alloc = t.reader.handle.getD y.alloc ∧ s.stream = t.stream ∧
      s.eof = t.eof) :
    (readSource y conv order objects c s).1 = (readSource y conv order objects c t).1 ∧
      ((readSource y conv order objects c s).2 = (readSource y conv order objects c t).2 ∨
        (readSource y conv order objects c s).2 = s ∧
          (readSource y conv order objects c t).2 = t) := by
  obtain ⟨hcontext, hhandle, hstream, heof⟩ := h
  have hread : read y conv order objects c s.reader s.stream =
      read y conv order objects c t.reader t.stream := by
    rw [read, read, hcontext, hhandle, hstream]
  rw [readSource, readSource, hread]
  cases read y conv order objects c t.reader t.stream with
  | none => exact ⟨rfl, Or.inr ⟨rfl, rfl⟩⟩
  | some x =>
    obtain ⟨result, r, rest⟩ := x
    cases result <;> exact ⟨rfl, Or.inl (by simp [heof])⟩

/-- Without an array, nothing is read. -/
lemma drain_of_startsNoArray {s : Source π} (hs : s.Unstarted y) {w : Bytes}
    (hw : StartsNoArray w) :
    ((textCodec y conv order objects c).drain { reader := s.reader, stream := w }).2.1 ≠
        .undefined ∧
      ((textCodec y conv order objects c).drain
        { reader := s.reader, stream := w }).2.2.Unstarted y := by
  obtain ⟨hcontext, hhandle⟩ := hs
  have hstarted : s.reader.context.arrayStarted = false := by rw [hcontext]
  have heof : (textCodec y conv order objects c).eof { reader := s.reader, stream := w } = false :=
    rfl
  cases hdrop : w.dropWhile isWhitespace with
  | nil =>
    have hread : (textCodec y conv order objects c).read { reader := s.reader, stream := w } =
        (.stop, ⟨⟨some (s.reader.handle.getD y.alloc), s.reader.context⟩, [], false⟩) := by
      show readSource y conv order objects c _ = _
      rw [readSource]
      simp [read, hstarted, hdrop]
    rw [TextCodec.drain_stop heof hread]
    exact ⟨by simp, hcontext, hhandle⟩
  | cons b u =>
    have hb : b ≠ 91 := by
      rintro rfl
      exact hw (by rw [hdrop]; rfl)
    have hread : (textCodec y conv order objects c).read { reader := s.reader, stream := w } =
        (.threw, ⟨⟨some (s.reader.handle.getD y.alloc), s.reader.context⟩, b :: u, false⟩) := by
      show readSource y conv order objects c _ = _
      rw [readSource]
      simp [read, hstarted, hdrop, hb]
    rw [TextCodec.drain_threw heof hread]
    exact ⟨by simp, hcontext, hhandle⟩

variable (y conv order objects c) in
/-- The JSON codec is as good as a new one until an array starts. -/
def reuse : (textCodec y conv order objects c).Reuse where
  Ready s := s.Unstarted y
  Fits _ := True
  Leaves := StartsNoArray
  start := ⟨rfl, rfl⟩
  same s w hs _ := by
    obtain ⟨hcontext, hhandle⟩ := hs
    obtain ⟨hvalues, hend, -⟩ := TextCodec.drain_congr (c := textCodec y conv order objects c)
      (d := textCodec y conv order objects c)
      (R := fun s t => s.reader.context = t.reader.context ∧
        s.reader.handle.getD y.alloc = t.reader.handle.getD y.alloc ∧ s.stream = t.stream ∧
        s.eof = t.eof) (fun s t h => h.2.2.2)
      (fun s t h => by
        obtain ⟨hstep, hstate | ⟨hs, ht⟩⟩ :=
          readSource_congr y conv order objects c h
        · refine ⟨hstep, ?_⟩
          rw [show ((textCodec y conv order objects c).read s).2 = _ from hstate]
          exact ⟨rfl, rfl, rfl, rfl⟩
        · refine ⟨hstep, ?_⟩
          rw [show ((textCodec y conv order objects c).read s).2 = s from hs,
            show ((textCodec y conv order objects c).read t).2 = t from ht]
          exact h)
      (s := { reader := s.reader, stream := w }) (t := { reader := {}, stream := w })
      ⟨hcontext, hhandle, rfl, rfl⟩
    exact ⟨hvalues, hend⟩
  keeps s w hs hw := (drain_of_startsNoArray hs hw).2
  defined w hw := (drain_of_startsNoArray (s := {}) ⟨rfl, rfl⟩ hw).1

end JSONCodec

/-! ### The XML codec -/

namespace XMLCodec

variable {ω : Type*} (x : LibXML ω) (conv : LogConversions φ δ χ θ) (objects : List CodecField)
  (c : FieldCodec)

/-- A call of `read`. -/
def readSource (s : State) : ReadStep (Event φ δ χ θ) × State :=
  match read x conv objects c s with
  | (.event e, s') => (.value e, s')
  | (.none, s') => (.stop, s')
  | (.threw, s') => (.threw, s')

/-- The first call opens the reader, and every other one takes a node. -/
def State.size (s : State) : ℕ × ℕ :=
  match s.reader with
  | none => (1, 0)
  | some (ks, _) => (0, ks.length)

variable {x conv objects c}

lemma findEvent_length {ks ks' : List ReaderNode}
    (h : findEvent c ks = .start ks' ∨ findEvent c ks = .emptyEvent ks') :
    ks'.length < ks.length := by
  induction ks with
  | nil => simp [findEvent] at h
  | cons k ks ih =>
    cases k with
    | element name isEmpty =>
      rw [findEvent] at h
      split_ifs at h
      · obtain rfl : ks = ks' := by simpa using h
        simp
      · exact (ih h).trans (by simp)
    | endElement name =>
      rw [findEvent] at h
      split_ifs at h
      · obtain rfl : ks = ks' := by simpa using h
        simp
      · simp at h
      · exact (ih h).trans (by simp)
    | _ => exact (ih h).trans (by simp)

lemma readFields_length {e e' : Event φ δ χ θ} {m : Mode} {ks ks' : List ReaderNode} {eof : Bool}
    (h : readFields conv objects c e m ks = some (e', ks', eof)) : ks'.length ≤ ks.length := by
  induction ks generalizing e m with
  | nil => simp [readFields] at h
  | cons k ks ih =>
    refine le_trans ?_ (Nat.le_succ ks.length)
    cases m with
    | outside openName =>
      cases k with
      | endElement name =>
        rw [readFields] at h
        split_ifs at h
        · obtain ⟨-, rfl, -⟩ := by simpa using h
          exact le_rfl
        · obtain ⟨-, rfl, -⟩ := by simpa using h
          exact le_rfl
        all_goals exact ih h
      | element name isEmpty =>
        rw [readFields] at h
        split_ifs at h
        · exact ih h
        · exact ih h
        · split at h <;> exact ih h
      | _ => exact ih h
    | field f openName value =>
      cases k with
      | endElement name =>
        rw [readFields] at h
        split_ifs at h
        · split at h
          · exact absurd h (by simp)
          · exact ih h
        · exact ih h
      | _ => exact ih h

lemma readEvent_shrinks {s s' : State} {ks : List ReaderNode} {broken : Bool}
    {e : Event φ δ χ θ} (h : readEvent conv objects c s ks broken = (.event e, s')) :
    ∃ ks' b, s'.reader = some (ks', b) ∧ ks'.length < ks.length := by
  rw [readEvent] at h
  cases hfind : findEvent c ks with
  | noNode =>
    rw [hfind] at h
    cases broken <;> simp [ended] at h
  | emptyEvent ks' =>
    rw [hfind] at h
    obtain ⟨-, rfl⟩ := Prod.mk.inj h
    exact ⟨ks', broken, rfl, findEvent_length (Or.inr hfind)⟩
  | containerEnd ks' =>
    rw [hfind] at h
    simp at h
  | start ks₁ =>
    rw [hfind] at h
    cases hfields : readFields conv objects c [] (.outside []) ks₁ with
    | none => simp [hfields] at h
    | some p =>
      obtain ⟨e', ks', eof⟩ := p
      simp only [hfields] at h
      obtain ⟨-, rfl⟩ := Prod.mk.inj h
      exact ⟨ks', broken, rfl,
        (readFields_length hfields).trans_lt (findEvent_length (Or.inl hfind))⟩

lemma read_shrinks {s s' : State} {e : Event φ δ χ θ}
    (h : read x conv objects c s = (.event e, s')) :
    Prod.Lex (· < ·) (· < ·) s'.size s.size := by
  rw [read] at h
  cases hreader : s.reader with
  | some p =>
    obtain ⟨ks, broken⟩ := p
    rw [hreader] at h
    obtain ⟨ks', b, hks', hlt⟩ := readEvent_shrinks h
    rw [State.size, State.size, hks', hreader]
    exact Prod.lex_def.2 (Or.inr ⟨rfl, hlt⟩)
  | none =>
    have hopened : ∃ ks' b, s'.reader = some (ks', b) := by
      simp only [hreader] at h
      split_ifs at h
      · simp at h
      · obtain ⟨ks', b, hks', -⟩ := readEvent_shrinks h
        exact ⟨ks', b, hks'⟩
      · split at h
        · cases hbroken : (x.parse s.stream).2 <;> simp [ended, hbroken] at h
        · obtain ⟨ks', b, hks', -⟩ := readEvent_shrinks h
          exact ⟨ks', b, hks'⟩
    obtain ⟨ks', b, hks'⟩ := hopened
    rw [State.size, State.size, hks', hreader]
    exact Prod.lex_def.2 (Or.inl Nat.zero_lt_one)

variable (x conv objects c) in
/-- The XML codec.  A reader that is open stays with the stream it was opened for. -/
def textCodec : TextCodec State (Event φ δ χ θ) where
  start := { stream := [] }
  feed s w := { s with stream := w, eof := false }
  read := readSource x conv objects c
  eof := State.eof
  size := State.size
  shrinks s e s' h := by
    rw [readSource] at h
    split at h
    · rename_i e' s₁ hread
      obtain ⟨-, rfl⟩ := Prod.mk.inj h
      exact read_shrinks hread
    all_goals cases h

/-- The reader is not opened for a text, or it is closed again since the text has no tag around
events. -/
def OpensNoReader (x : LibXML ω) (c : FieldCodec) (w : Bytes) : Prop :=
  c.fieldMap = [] ∨ c.eventContainerTag ≠ [] ∧ skipTo c.eventContainerTag (x.parse w).1 = none

lemma drain_of_opensNoReader {w : Bytes} (hw : OpensNoReader x c w) :
    ((textCodec x conv objects c).drain { stream := w }).2.1 ≠ .undefined ∧
      ((textCodec x conv objects c).drain { stream := w }).2.2.reader = none := by
  have heof : (textCodec x conv objects c).eof { stream := w } = false := rfl
  have hread : ∃ s', s'.reader = none ∧
      ((textCodec x conv objects c).read { stream := w } = (.stop, s') ∨
        (textCodec x conv objects c).read { stream := w } = (.threw, s')) := by
    show ∃ s' : State, s'.reader = none ∧
      (readSource x conv objects c { stream := w } = (.stop, s') ∨
        readSource x conv objects c { stream := w } = (.threw, s'))
    rw [readSource, read]
    by_cases hmap : c.fieldMap = []
    · exact ⟨{ stream := w }, rfl, Or.inr (by simp [hmap])⟩
    · obtain ⟨hcontainer, hskip⟩ := hw.resolve_left hmap
      refine ⟨{ stream := [] }, rfl, ?_⟩
      cases hbroken : (x.parse w).2 <;> simp [hmap, hcontainer, hskip, ended, hbroken]
  obtain ⟨s', hs', hread | hread⟩ := hread
  · rw [TextCodec.drain_stop heof hread]
    exact ⟨by simp, hs'⟩
  · rw [TextCodec.drain_threw heof hread]
    exact ⟨by simp, hs'⟩

variable (x conv objects c) in
/-- The XML codec is as good as a new one until it opens its reader. -/
def reuse : (textCodec x conv objects c).Reuse where
  Ready s := s.reader = none
  Fits _ := True
  Leaves := OpensNoReader x c
  start := rfl
  same s w hs _ := by
    have hfeed : (textCodec x conv objects c).feed s w =
        (textCodec x conv objects c).feed (textCodec x conv objects c).start w :=
      congrArg (fun r => ({ stream := w, eof := false, reader := r } : State)) hs
    rw [hfeed]
    exact ⟨rfl, rfl⟩
  keeps s w hs hw := by
    have hfeed : (textCodec x conv objects c).feed s w = { stream := w } :=
      congrArg (fun r => ({ stream := w, eof := false, reader := r } : State)) hs
    rw [hfeed]
    exact (drain_of_opensNoReader hw).2
  defined w hw := (drain_of_opensNoReader hw).1

end XMLCodec

/-! ### The log codec -/

namespace LogCodec

variable {c : LogCodec} {stale stale' : Bytes → Bytes} {v w : Bytes}

/-- Headers are ignored, or there is none in the text. -/
def HeaderFree (c : LogCodec) (w : Bytes) : Prop :=
  c.handleElfHeaders = false ∨ ¬ fieldsElfHeader <:+: w

/-- Headers are ignored, or none of them is empty. -/
def NoBareHeader (c : LogCodec) (w : Bytes) : Prop :=
  c.handleElfHeaders = false ∨ ∀ t, t <:+ w → fieldsElfHeader <+: t →
    ∃ b, t[fieldsElfHeader.length]? = some b ∧ c.inEventSplit b = false

lemma HeaderFree.noBareHeader (h : c.HeaderFree w) : c.NoBareHeader w :=
  h.imp id fun hno _ ht hheader => absurd (hheader.isInfix.trans ht.isInfix) hno

lemma NoBareHeader.of_suffix (h : c.NoBareHeader w) (hv : v <:+ w) : c.NoBareHeader v :=
  h.imp id fun hall t ht => hall t (ht.trans hv)

lemma HeaderFree.of_prefix (h : c.HeaderFree w) (hv : v <+: w) : c.HeaderFree v :=
  h.imp id fun hno hinner => hno (hinner.trans hv.isInfix)

lemma HeaderFree.of_suffix (h : c.HeaderFree w) (hv : v <:+ w) : c.HeaderFree v :=
  h.imp id fun hno hinner => hno (hinner.trans hv.isInfix)

/-- A header keeps everything but the format. -/
lemma NoBareHeader.endComment (h : c.NoBareHeader w) (stale : Bytes → Bytes)
    (comment rest : Bytes) : (endComment stale c comment rest).1.NoBareHeader w := by
  rw [LogCodec.endComment]
  split <;> exact h

lemma prefix_of_isDirective {comment : Bytes} (h : isDirective comment = true) :
    fieldsElfHeader <+: comment := by
  have htake : cString (comment.take fieldsElfHeader.length) = fieldsElfHeader := by
    simpa [isDirective] using h
  have hstart : fieldsElfHeader <+: comment.take fieldsElfHeader.length := by
    have hwhile : cString (comment.take fieldsElfHeader.length) <+:
        comment.take fieldsElfHeader.length := List.takeWhile_prefix _
    rwa [htake] at hwhile
  exact hstart.trans (List.take_prefix _ _)

/-- The end of a comment without a header. -/
lemma endComment_of_headerFree {comment : Bytes} (h : c.HeaderFree comment) (rest : Bytes) :
    endComment stale c comment rest = (c, none) := by
  refine endComment_of_not_directive ?_
  rcases h with h | h
  · rw [h, Bool.false_and]
  · cases hdirective : isDirective comment with
    | false => rw [Bool.and_false]
    | true => exact absurd (prefix_of_isDirective hdirective).isInfix h

variable (stale stale') in
/-- The end of a comment that is no empty header. -/
lemma endComment_congr {comment rest : Bytes} (h : c.NoBareHeader (comment ++ rest))
    (hrest : rest.head?.all c.inEventSplit = true) :
    endComment stale c comment rest = endComment stale' c comment rest := by
  rw [endComment, endComment]
  cases helf : c.handleElfHeaders with
  | false => rfl
  | true =>
    have hall := h.resolve_left (by simp [helf])
    have hsame : directive (stale rest) comment = directive (stale' rest) comment := by
      rw [directive, directive]
      by_cases htake : cString (comment.take fieldsElfHeader.length) = fieldsElfHeader
      · have hstart := prefix_of_isDirective (show isDirective comment = true by
          simpa [isDirective] using htake)
        by_cases hle : comment.length ≤ fieldsElfHeader.length
        · exfalso
          have heq : fieldsElfHeader = comment :=
            hstart.eq_of_length (Nat.le_antisymm hstart.length_le hle)
          obtain ⟨b, hb, hnot⟩ := hall _ List.suffix_rfl (hstart.trans (List.prefix_append _ _))
          rw [heq, List.getElem?_append_right le_rfl, Nat.sub_self, ← List.head?_eq_getElem?] at hb
          rw [hb] at hrest
          rw [Option.all_some] at hrest
          exact absurd (hrest.symm.trans hnot) (by decide)
        · rw [if_pos htake, if_pos htake, if_neg hle, if_neg hle]
      · rw [if_neg htake, if_neg htake]
    rw [hsame]

/-- What is left in the buffer only counts behind an empty header. -/
lemma consumeVoids_congr (stale stale' : Bytes → Bytes) (comment : Option Bytes) {s : Bytes}
    (h : c.NoBareHeader (comment.getD [] ++ s)) :
    consumeVoids stale c comment s = consumeVoids stale' c comment s := by
  induction s generalizing c comment with
  | nil =>
    cases comment with
    | none => rfl
    | some comment =>
      replace h : c.NoBareHeader (comment ++ []) := h
      rw [consumeVoids, consumeVoids, endComment_congr stale stale' h rfl]
  | cons b s ih =>
    cases comment with
    | none =>
      rw [consumeVoids, consumeVoids]
      split_ifs
      · exact ih none (h.of_suffix (List.suffix_cons b s))
      · exact ih (some [b]) h
      · rfl
    | some comment =>
      replace h : c.NoBareHeader (comment ++ b :: s) := h
      rw [consumeVoids, consumeVoids]
      split_ifs with hb
      · rw [endComment_congr stale stale' h (by simpa using hb)]
        have hs : c.NoBareHeader s :=
          h.of_suffix ((List.suffix_cons b s).trans (List.suffix_append _ _))
        have hchanged := hs.endComment stale' comment (b :: s)
        cases hend : endComment stale' c comment (b :: s) with
        | mk changed x =>
          rw [hend] at hchanged
          cases x with
          | none => exact ih none hchanged
          | some exception => rfl
      · refine ih _ ?_
        show c.NoBareHeader (comment ++ [b] ++ s)
        rw [List.append_assoc]
        exact h

/-- Without headers the codec stays as it is. -/
lemma consumeVoids_of_headerFree (comment : Option Bytes) {s : Bytes}
    (h : c.HeaderFree (comment.getD [] ++ s)) :
    (consumeVoids stale c comment s).1 = c := by
  induction s generalizing comment with
  | nil =>
    cases comment with
    | none => rfl
    | some comment =>
      replace h : c.HeaderFree (comment ++ []) := h
      rw [consumeVoids, endComment_of_headerFree (h.of_prefix (List.prefix_append _ _))]
  | cons b s ih =>
    cases comment with
    | none =>
      rw [consumeVoids]
      split_ifs
      · exact ih none (h.of_suffix (List.suffix_cons b s))
      · exact ih (some [b]) h
      · rfl
    | some comment =>
      replace h : c.HeaderFree (comment ++ b :: s) := h
      rw [consumeVoids]
      split_ifs
      · rw [endComment_of_headerFree (h.of_prefix (List.prefix_append _ _))]
        exact ih none (h.of_suffix ((List.suffix_cons b s).trans (List.suffix_append _ _)))
      · refine ih _ ?_
        show c.HeaderFree (comment ++ [b] ++ s)
        rw [List.append_assoc]
        exact h

/-! ### What a call takes -/

lemma consumeVoids_suffix (stale : Bytes → Bytes) (c : LogCodec) (comment : Option Bytes)
    (s : Bytes) : (consumeVoids stale c comment s).2.1 <:+ s ∧
      ((consumeVoids stale c comment s).2.2 = none →
        ∀ b ∈ (consumeVoids stale c comment s).2.1.head?,
          (consumeVoids stale c comment s).1.isVoid b = false) := by
  induction s generalizing c comment with
  | nil =>
    cases comment <;>
      exact ⟨List.suffix_rfl, fun _ b hb => absurd hb (by simp [consumeVoids])⟩
  | cons b s ih =>
    have hcons (c : LogCodec) (comment : Option Bytes) :=
      (⟨(ih c comment).1.trans (List.suffix_cons b s), (ih c comment).2⟩ : _ ∧ _)
    cases comment with
    | none =>
      rw [consumeVoids]
      split_ifs with hvoid
      · exact hcons c none
      · exact hcons c (some [b])
      · refine ⟨List.suffix_rfl, fun _ b' hb' => ?_⟩
        obtain rfl : b = b' := Option.some.inj hb'
        exact Bool.eq_false_iff.2 hvoid
    | some comment =>
      rw [consumeVoids]
      split_ifs
      · split
        · exact hcons _ none
        · exact ⟨List.suffix_rfl, fun h => absurd h (by simp)⟩
      · exact hcons c _

lemma readText_suffix (delimEnd escapeChar : Byte) (buf s : Bytes) :
    (readText c delimEnd escapeChar buf s).2 <:+ s := by
  induction s generalizing buf with
  | nil => exact List.suffix_rfl
  | cons b s ih =>
    rw [readText]
    split_ifs
    · exact (ih _).trans (List.suffix_cons b s)
    · exact List.suffix_cons b s
    · exact List.suffix_rfl
    all_goals exact (ih _).trans (List.suffix_cons b s)

lemma readContents_suffix (delimEnd escapeChar : Byte) (s : Bytes) :
    (readContents c delimEnd escapeChar s).2 <:+ s := by
  cases s with
  | nil =>
    rw [readContents]
    split_ifs <;> exact List.suffix_rfl
  | cons b s => exact readText_suffix ..

lemma startField_suffix {f : LogField} {s rest : Bytes} {d : Byte}
    (h : startField f s = some (d, rest)) : rest <:+ s := by
  rw [startField] at h
  split_ifs at h
  · obtain ⟨-, rfl⟩ := Prod.mk.inj (Option.some.inj h)
    exact List.suffix_rfl
  · obtain ⟨-, rfl⟩ := Prod.mk.inj (Option.some.inj h)
    exact List.tail_suffix s
  · obtain ⟨-, rfl⟩ := Prod.mk.inj (Option.some.inj h)
    exact List.suffix_rfl

lemma skipSplit_suffix (s : Bytes) : c.skipSplit s <:+ s := by
  rw [skipSplit]
  split_ifs
  · exact (List.dropWhile_suffix _).trans (List.tail_suffix s)
  · exact List.tail_suffix s

variable (conv : LogConversions φ δ χ θ)

lemma readFields_suffix (fs : List LogField) (e : Event φ δ χ θ) (s : Bytes) :
    (readFields conv c fs e s).2 <:+ s := by
  induction fs generalizing e s with
  | nil => exact List.suffix_rfl
  | cons f fs ih =>
    rw [readFields]
    by_cases hend : s.head?.all c.inEventSplit = true
    · rw [if_pos hend]
    · rw [if_neg hend]
      cases hstart : startField f s with
      | none => exact List.suffix_rfl
      | some p =>
        obtain ⟨delimEnd, rest⟩ := p
        have hrest : (readContents c delimEnd f.logEscapeChar rest).2 <:+ s :=
          (readContents_suffix ..).trans (startField_suffix hstart)
        dsimp only
        split
        · exact hrest
        · split_ifs
          · exact hrest
          · exact (ih _ _).trans ((skipSplit_suffix _).trans hrest)

lemma skipRecord_suffix (s : Bytes) : c.skipRecord s <:+ s :=
  (List.dropWhile_suffix _).trans (List.dropWhile_suffix _)

/-- A call takes characters from the front of the stream. -/
lemma read_suffix (stale : Bytes → Bytes) (c : LogCodec) (s : Bytes) :
    (read conv stale c s).2.1 <:+ s := by
  have hvoids := (consumeVoids_suffix stale c none s).1
  rw [read]
  split
  · rename_i heq
    rw [heq] at hvoids
    exact hvoids
  · exact List.nil_suffix
  · rename_i c' b s' heq
    rw [heq] at hvoids
    have hfields := (readFields_suffix (c := c') conv c'.fields [] (b :: s')).trans hvoids
    split
    · rename_i hread
      rw [hread] at hfields
      exact hfields
    · rename_i hread
      rw [hread] at hfields
      exact (skipRecord_suffix _).trans hfields

/-- A call that returns an event has taken a character. -/
lemma read_length {stale : Bytes → Bytes} {c c' : LogCodec} {s rest : Bytes}
    {e : Event φ δ χ θ} (h : read conv stale c s = (c', rest, .event e)) :
    rest.length < s.length := by
  obtain ⟨hvoids, hbegin⟩ := consumeVoids_suffix stale c none s
  rw [read] at h
  split at h
  · simp at h
  · simp at h
  · rename_i c₁ b s₁ heq
    rw [heq] at hvoids hbegin
    have hb : c₁.isVoid b = false := hbegin rfl b rfl
    have hfields := readFields_suffix (c := c₁) conv c₁.fields [] (b :: s₁)
    split at h
    · simp at h
    · rename_i e' s₂ hread
      rw [hread] at hfields
      obtain ⟨-, rfl, -⟩ := by simpa using h
      refine lt_of_lt_of_le ?_ hvoids.length_le
      rcases List.suffix_cons_iff.1 hfields with heq | hsuffix
      · obtain rfl : s₂ = b :: s₁ := heq
        have hsplit : (! c₁.inEventSplit b) = true := by
          rw [isVoid, Bool.or_eq_false_iff] at hb
          rw [hb.2, Bool.not_false]
        rw [skipRecord, List.dropWhile_cons, if_pos hsplit]
        exact Nat.lt_succ_of_le (skipRecord_suffix s₁).length_le
      · exact Nat.lt_succ_of_le ((skipRecord_suffix s₂).trans hsuffix).length_le

/-! ### The codec with its stream -/

/-- The codec, the streams that it has got, and what is left of the last one. -/
structure Source where
  codec : LogCodec
  past : List Bytes := []
  stream : Bytes := []
  eof : Bool := false

/-- A call of `read`; what is left in the buffer comes from all streams so far. -/
def readSource (stale : List Bytes → Bytes → Bytes) (s : Source) :
    ReadStep (Event φ δ χ θ) × Source :=
  match read conv (stale s.past) s.codec s.stream with
  | (c, rest, .event e) =>
    (.value e, { s with codec := c, stream := rest, eof := decide (rest = []) })
  | (c, rest, .eof) => (.stop, { s with codec := c, stream := rest, eof := true })
  | (c, rest, .threw) => (.threw, { s with codec := c, stream := rest })

/-- The log codec. -/
def textCodec (stale : List Bytes → Bytes → Bytes) (c : LogCodec) :
    TextCodec Source (Event φ δ χ θ) where
  start := { codec := c }
  feed s w := { codec := s.codec, past := s.past ++ [w], stream := w }
  read := readSource conv stale
  eof := Source.eof
  size s := (s.stream.length, 0)
  shrinks s e s' h := by
    rw [readSource] at h
    split at h
    · rename_i c' rest e' hread
      obtain ⟨-, rfl⟩ := Prod.mk.inj h
      exact Prod.lex_def.2 (Or.inl (read_length conv hread))
    all_goals cases h

lemma NoBareHeader.consumeVoids {c : LogCodec} (h : c.NoBareHeader w) (stale : Bytes → Bytes)
    (comment : Option Bytes) (s : Bytes) :
    (consumeVoids stale c comment s).1.NoBareHeader w := by
  induction s generalizing c comment with
  | nil =>
    cases comment with
    | none => exact h
    | some comment => exact h.endComment stale comment []
  | cons b s ih =>
    cases comment with
    | none =>
      rw [LogCodec.consumeVoids]
      split_ifs
      · exact ih h none
      · exact ih h (some [b])
      · exact h
    | some comment =>
      rw [LogCodec.consumeVoids]
      have hchanged := h.endComment stale comment (b :: s)
      split_ifs
      · cases hend : LogCodec.endComment stale c comment (b :: s) with
        | mk changed x =>
          rw [hend] at hchanged
          cases x with
          | none => exact ih hchanged none
          | some exception => exact hchanged
      · exact ih h _

lemma read_fst (stale : Bytes → Bytes) (c : LogCodec) (s : Bytes) :
    (read conv stale c s).1 = (consumeVoids stale c none s).1 := by
  rw [read]
  split
  · rename_i heq
    rw [heq]
  · rename_i heq
    rw [heq]
  · rename_i heq
    rw [heq]
    split <;> rfl

/-- Streams without empty headers are read in the same way, whatever is left in the buffer. -/
lemma readSource_congr (stale : List Bytes → Bytes → Bytes) {s t : Source}
    (h : s.codec = t.codec ∧ s.stream = t.stream ∧ s.eof = t.eof ∧
      s.codec.NoBareHeader s.stream) :
    (readSource conv stale s).1 = (readSource conv stale t).1 ∧
      (readSource conv stale s).2.codec = (readSource conv stale t).2.codec ∧
      (readSource conv stale s).2.stream = (readSource conv stale t).2.stream ∧
      (readSource conv stale s).2.eof = (readSource conv stale t).2.eof ∧
      (readSource conv stale s).2.codec.NoBareHeader (readSource conv stale s).2.stream := by
  obtain ⟨hcodec, hstream, heof, hbare⟩ := h
  have hread : read conv (stale s.past) s.codec s.stream =
      read conv (stale t.past) t.codec t.stream := by
    rw [← hcodec, ← hstream, read, read]
    rw [consumeVoids_congr (stale s.past) (stale t.past) none hbare]
  have hrest := hbare.of_suffix (read_suffix conv (stale s.past) s.codec s.stream)
  have hnext : (read conv (stale s.past) s.codec s.stream).1.NoBareHeader
      (read conv (stale s.past) s.codec s.stream).2.1 := by
    rw [read_fst]
    exact hrest.consumeVoids ..
  rw [hread] at hnext
  rw [readSource, readSource, hread]
  generalize read conv (stale t.past) t.codec t.stream = x at hnext ⊢
  obtain ⟨c, rest, result⟩ := x
  cases result with
  | event e => exact ⟨rfl, rfl, rfl, rfl, hnext⟩
  | eof => exact ⟨rfl, rfl, rfl, rfl, hnext⟩
  | threw => exact ⟨rfl, rfl, rfl, heof, hnext⟩

lemma readSource_headerFree (stale : List Bytes → Bytes → Bytes) {s : Source}
    (h : s.codec = c ∧ c.HeaderFree s.stream) :
    (readSource conv stale s).2.codec = c ∧
      c.HeaderFree (readSource conv stale s).2.stream := by
  obtain ⟨rfl, hfree⟩ := h
  have hcodec : (read conv (stale s.past) s.codec s.stream).1 = s.codec := by
    rw [read_fst, consumeVoids_of_headerFree none hfree]
  have hrest := hfree.of_suffix (read_suffix conv (stale s.past) s.codec s.stream)
  rw [readSource]
  generalize read conv (stale s.past) s.codec s.stream = x at hcodec hrest ⊢
  obtain ⟨c, rest, result⟩ := x
  cases result <;> exact ⟨hcodec, hrest⟩

lemma readSource_defined (stale : List Bytes → Bytes → Bytes) (s : Source) :
    (readSource conv stale s).1 ≠ .undefined := by
  rw [readSource]
  split <;> simp

/-- A text without empty headers is read in the same way, whatever the codec got before. -/
lemma drain_past (stale : List Bytes → Bytes → Bytes) (c : LogCodec) {l : LogCodec}
    (h : l.NoBareHeader w) (p q : List Bytes) :
    ((textCodec conv stale c).drain { codec := l, past := p, stream := w }).1 =
        ((textCodec conv stale c).drain { codec := l, past := q, stream := w }).1 ∧
      ((textCodec conv stale c).drain { codec := l, past := p, stream := w }).2.1 =
        ((textCodec conv stale c).drain { codec := l, past := q, stream := w }).2.1 := by
  obtain ⟨hvalues, hend, -⟩ := TextCodec.drain_congr (c := textCodec conv stale c)
    (d := textCodec conv stale c)
    (R := fun s t => s.codec = t.codec ∧ s.stream = t.stream ∧ s.eof = t.eof ∧
      s.codec.NoBareHeader s.stream) (fun s t h => h.2.2.1)
    (fun s t h => readSource_congr conv stale h)
    (s := { codec := l, past := p, stream := w }) (t := { codec := l, past := q, stream := w })
    ⟨rfl, rfl, rfl, h⟩
  exact ⟨hvalues, hend⟩

/-- When a stream ends well, nothing of it is left. -/
lemma drain_stopped (stale : List Bytes → Bytes → Bytes) (c : LogCodec) {s : Source}
    (hs : s.eof = true → s.stream = [])
    (h : ((textCodec conv stale c).drain s).2.1 = .stopped) :
    ((textCodec conv stale c).drain s).2.2.eof = true ∧
      ((textCodec conv stale c).drain s).2.2.stream = [] := by
  refine TextCodec.drain_stopped (c := textCodec conv stale c)
    (P := fun s => s.eof = true ∧ s.stream = []) ?_ ?_ (fun heof => ⟨heof, hs heof⟩) h
  · intro s e s' hread heof
    replace hread : readSource conv stale s = (.value e, s') := hread
    replace heof : s'.eof = true := heof
    rw [readSource] at hread
    split at hread
    · obtain ⟨-, rfl⟩ := Prod.mk.inj hread
      exact ⟨heof, of_decide_eq_true heof⟩
    all_goals cases hread
  · intro s s' hread
    replace hread : readSource conv stale s = (.stop, s') := hread
    rw [readSource] at hread
    split at hread
    · cases hread
    · rename_i c' rest hresult
      obtain ⟨-, rfl⟩ := Prod.mk.inj hread
      rw [read] at hresult
      split at hresult
      · simp at hresult
      · obtain ⟨-, rfl, -⟩ := by simpa using hresult
        exact ⟨rfl, rfl⟩
      · split at hresult <;> simp at hresult
    · cases hread

/-- The log codec is as good as a new one until it has read a header. -/
def reuse (stale : List Bytes → Bytes → Bytes) (c : LogCodec) : (textCodec conv stale c).Reuse where
  Ready s := s.codec = c
  Fits := c.NoBareHeader
  Leaves := c.HeaderFree
  start := rfl
  same s w hs hw := by
    subst hs
    exact drain_past conv stale s.codec hw (s.past ++ [w]) ([] ++ [w])
  keeps s w hs hw := by
    have hfed : ((textCodec conv stale c).feed s w).codec = c ∧ c.HeaderFree w := ⟨hs, hw⟩
    exact (TextCodec.drain_invariant (c := textCodec conv stale c)
      (P := fun s => s.codec = c ∧ c.HeaderFree s.stream)
      (fun s h => readSource_headerFree conv stale h) hfed).1
  defined w _ := TextCodec.drain_defined (readSource_defined conv stale) _

end LogCodec

end PionCore.Platform
