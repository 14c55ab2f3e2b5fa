/-
# Log files that grow

In tail mode the log input reactor keeps a log file open, and reads what is new in it with a codec
that is new as well.  For the log codec this gives what one codec reads from the whole file, if the
file only grows by whole records and has no headers but in its last piece; the other codecs have to
find the whole file at once.

There is one log file, which is not compressed, and has not been read before; the reactor is
running.
-/
import PionCore.Platform.TextCodecs
import PionCore.Platform.XMLRoundTrip

namespace PionCore.Platform

open PionCore.Lib PionCore.Common

namespace TailMode

variable {σ ε : Type*} (c : TextCodec σ ε) (rest : σ → Bytes)

/-- The loop of `readFromLog`, with a new codec: the events, and what is left of the file; `none` if
the file is done.  It is done when something throws, or when there is no event but the end of the
file has not been found.  On an empty file it has been found already. -/
def readFromLog (text : Bytes) : List ε × Option Bytes :=
  let x := c.drain (c.feed c.start text)
  (x.1, if x.2.1 = .stopped ∧ (c.eof x.2.2 = true ∨ text = []) then some (rest x.2.2) else none)

/-- The polls of a file, in front of each of which it may have grown. -/
def poll : Option Bytes → List Bytes → List ε
  | none, _ => []
  | some _, [] => []
  | some left, w :: ws =>
    if left ++ w = [] then poll (some []) ws
    else (readFromLog c rest (left ++ w)).1 ++ poll (readFromLog c rest (left ++ w)).2 ws

/-- The events of a file that is found with the content `w`, and grows by the other pieces. -/
def tail (w : Bytes) (ws : List Bytes) : List ε :=
  (readFromLog c rest w).1 ++ poll c rest (readFromLog c rest w).2 ws

/-- The events that one codec reads from the final content. -/
def OnePass (w : Bytes) (ws : List Bytes) : Prop :=
  tail c rest w ws = (c.alone (w ++ ws.flatten)).1

variable {c rest}

lemma poll_none (ws : List Bytes) : poll c rest none ws = [] := by cases ws <;> rfl

lemma poll_nil (left : Option Bytes) : poll c rest left [] = [] := by cases left <;> rfl

lemma poll_nil_cons (ws : List Bytes) :
    poll c rest (some []) ([] :: ws) = poll c rest (some []) ws := by
  rw [poll, List.nil_append, if_pos rfl]

lemma poll_cons_of_ne_nil {w : Bytes} (hw : w ≠ []) (ws : List Bytes) :
    poll c rest (some []) (w :: ws) =
      (readFromLog c rest w).1 ++ poll c rest (readFromLog c rest w).2 ws := by
  rw [poll, List.nil_append, if_neg hw]

/-- A file that does not grow any more. -/
lemma poll_of_empty {ws : List Bytes} (h : ∀ w ∈ ws, w = []) : poll c rest (some []) ws = [] := by
  induction ws with
  | nil => rfl
  | cons w ws ih =>
    obtain ⟨rfl, hws⟩ := List.forall_mem_cons.1 h
    rw [poll_nil_cons, ih hws]

/-- A file that is found empty is polled like others, if a new codec finds nothing in it. -/
lemma tail_eq_poll {w : Bytes} (h : w = [] → c.alone [] = ([], .stopped) ∧
      rest (c.drain (c.feed c.start [])).2.2 = []) (ws : List Bytes) :
    tail c rest w ws = poll c rest (some []) (w :: ws) := by
  by_cases hw : w = []
  · obtain ⟨halone, hrest⟩ := h hw
    have hread : readFromLog c rest [] = ([], some []) := by
      rw [TextCodec.alone, Prod.mk.injEq] at halone
      rw [readFromLog, halone.1, halone.2, hrest]
      simp
    rw [tail, hw, poll_nil_cons, hread, List.nil_append]
  · rw [tail, poll_cons_of_ne_nil hw]

/-- The whole file is there when it is read first, and the codec leaves nothing of it. -/
structure AtOnce (c : TextCodec σ ε) (rest : σ → Bytes) (w : Bytes) (ws : List Bytes) : Prop where
  one : ((w :: ws).filter (· ≠ [])).length ≤ 1
  takes : ∀ v ∈ w :: ws, rest (c.drain (c.feed c.start v)).2.2 = []
  empty : w = [] → c.alone [] = ([], .stopped)

lemma readFromLog_of_takes {w : Bytes} (h : rest (c.drain (c.feed c.start w)).2.2 = []) :
    (readFromLog c rest w).2 = none ∨ (readFromLog c rest w).2 = some [] := by
  rw [readFromLog, h]
  dsimp only
  split_ifs
  · exact Or.inr rfl
  · exact Or.inl rfl

lemma AtOnce.onePass {w : Bytes} {ws : List Bytes} (h : AtOnce c rest w ws) :
    OnePass c rest w ws := by
  obtain ⟨hone, htakes, hempty⟩ := h
  rw [OnePass, tail_eq_poll fun hw => ⟨hempty hw, hw ▸ htakes w List.mem_cons_self⟩]
  have hflatten : w ++ ws.flatten = (w :: ws).flatten := rfl
  rw [hflatten]
  generalize hpieces : w :: ws = pieces at hone htakes
  have hnone : (∀ v ∈ pieces, v = []) → poll c rest (some []) pieces = (c.alone []).1 := by
    intro hall
    rw [poll_of_empty hall, hempty (hall w (hpieces ▸ List.mem_cons_self))]
  clear hpieces hempty hflatten
  induction pieces with
  | nil => exact hnone (by simp)
  | cons v vs ih =>
    by_cases hv : v = []
    · subst hv
      rw [poll_nil_cons]
      refine ih (by simpa using hone) (fun u hu => htakes u (List.mem_cons_of_mem _ hu)) ?_
      intro hall
      rw [← hnone (List.forall_mem_cons.2 ⟨rfl, hall⟩), poll_nil_cons]
    · have hrest : ∀ u ∈ vs, u = [] := by
        rw [List.filter_cons_of_pos (by simpa using hv), List.length_cons] at hone
        have hzero : (vs.filter (· ≠ [])).length = 0 := by omega
        intro u hu
        by_contra hne
        exact absurd (List.mem_filter.2 ⟨hu, by simpa using hne⟩)
          (List.eq_nil_of_length_eq_zero hzero ▸ List.not_mem_nil)
      have hflat : (v :: vs).flatten = v := by
        rw [List.flatten_cons, List.flatten_eq_nil_iff.2 hrest, List.append_nil]
      rw [poll_cons_of_ne_nil hv, hflat]
      rcases readFromLog_of_takes (htakes v List.mem_cons_self) with hdone | hopen
      · rw [hdone, poll_none, List.append_nil]
        rfl
      · rw [hopen, poll_of_empty hrest, List.append_nil]
        rfl

end TailMode

/-! ### Log files that grow by whole records -/

namespace LogCodec

variable {φ δ χ θ : Type*} {conv : LogConversions φ δ χ θ} {c : LogCodec} {stale : Bytes → Bytes}
  {s v w : Bytes}

/-- The last character ends a record. -/
def EndsSplit (c : LogCodec) (w : Bytes) : Prop := ∀ b ∈ w.getLast?, c.inEventSplit b = true

variable (conv) in
/-- Where the calls of `read` begin in a text. -/
inductive Position (c : LogCodec) (w : Bytes) : Bytes → Prop where
  | start : Position c w w
  | next {s rest : Bytes} {e : Event φ δ χ θ} : Position c w s →
      read conv (fun _ => []) c s = (c, rest, .event e) → Position c w rest

variable (conv) in
/-- The fields of each record end in front of the end of the text. -/
def Closes (c : LogCodec) (w : Bytes) : Prop :=
  ∀ s, Position conv c w s → ∀ t, consumeVoids (fun _ => []) c none s = (c, t, none) → t ≠ [] →
    (readFields conv c c.fields [] t).2 ≠ []

lemma EndsSplit.of_suffix (h : c.EndsSplit w) (hs : s <:+ w) : c.EndsSplit s := by
  intro b hb
  obtain ⟨t, rfl⟩ := hs
  refine h b ?_
  rw [List.getLast?_append]
  rw [Option.mem_def] at hb ⊢
  rw [hb, Option.some_or]

lemma Position.suffix (hs : Position conv c w s) : s <:+ w := by
  induction hs with
  | start => exact List.suffix_rfl
  | @next s rest e _ hread ih =>
    have hrest := read_suffix conv (fun _ => []) c s
    rw [hread] at hrest
    exact hrest.trans ih

/-- Without delimiters, the fields end at the end of the record. -/
lemma Plain.closes (hc : Plain c) (hw : c.EndsSplit w) : Closes conv c w := by
  intro s hs t ht hne
  have htw : t <:+ w := by
    have hvoids := (consumeVoids_suffix (fun _ => []) c none s).1
    rw [ht] at hvoids
    exact hvoids.trans hs.suffix
  have hlast : EndsRecord c [t.getLast hne] := by
    have hsplit := (hw.of_suffix htw) (t.getLast hne) (List.getLast?_eq_some_getLast hne)
    simpa [EndsRecord] using hsplit
  obtain ⟨mid, -, hmid⟩ := readFields_snd conv hc.disjoint hlast hc.noDelims [] t.dropLast
  rw [List.dropLast_append_getLast] at hmid
  rw [hmid]
  simp

/-! ### What follows does not matter -/

lemma dropWhile_append_of_ne_nil {p : Byte → Bool} (h : s.dropWhile p ≠ []) (v : Bytes) :
    (s ++ v).dropWhile p = s.dropWhile p ++ v := by
  rw [List.dropWhile_append, if_neg (by simpa using h)]

lemma readText_append {delimEnd escapeChar : Byte} {buf : Bytes}
    (h : (readText c delimEnd escapeChar buf s).2 ≠ []) (v : Bytes) :
    readText c delimEnd escapeChar buf (s ++ v) =
      ((readText c delimEnd escapeChar buf s).1,
        (readText c delimEnd escapeChar buf s).2 ++ v) := by
  induction s generalizing buf with
  | nil => exact absurd rfl h
  | cons b s ih =>
    rw [List.cons_append, readText]
    rw [readText] at h ⊢
    split_ifs at h ⊢
    · exact ih h
    · rfl
    · rfl
    all_goals exact ih h

lemma startField_append {f : LogField} (hs : s ≠ []) (v : Bytes) :
    startField f (s ++ v) = (startField f s).map fun p => (p.1, p.2 ++ v) := by
  obtain ⟨b, t, rfl⟩ := List.exists_cons_of_ne_nil hs
  rw [startField, startField]
  simp only [List.cons_append, List.head?_cons, List.tail_cons]
  by_cases hstart : f.logDelimStart = 0
  · simp [hstart]
  · by_cases hdelim : isDelim f.logDelimStart (some b) = true
    · simp [hstart, hdelim]
    · by_cases hopt : f.logOptDelims = true <;> simp [hstart, hdelim, hopt]

lemma skipSplit_append_of_ne_nil (h : c.skipSplit s ≠ []) (v : Bytes) :
    c.skipSplit (s ++ v) = c.skipSplit s ++ v := by
  have hs : s ≠ [] := by
    rintro rfl
    rw [skipSplit] at h
    split_ifs at h <;> exact h rfl
  obtain ⟨b, t, rfl⟩ := List.exists_cons_of_ne_nil hs
  rw [skipSplit] at h
  rw [skipSplit, skipSplit]
  simp only [List.cons_append, List.tail_cons] at h ⊢
  split_ifs at h ⊢
  · exact dropWhile_append_of_ne_nil h v
  · rfl

lemma readFields_nil (fs : List LogField) (e : Event φ δ χ θ) :
    (readFields conv c fs e []).2 = [] := List.suffix_nil.1 (readFields_suffix conv fs e [])

/-- Fields that end in front of the end of the text. -/
lemma readFields_append {fs : List LogField} {e : Event φ δ χ θ}
    (h : (readFields conv c fs e s).2 ≠ []) (v : Bytes) :
    readFields conv c fs e (s ++ v) =
      ((readFields conv c fs e s).1, (readFields conv c fs e s).2 ++ v) := by
  induction fs generalizing e s with
  | nil => rfl
  | cons f fs ih =>
    have hs : s ≠ [] := by
      rintro rfl
      exact h (readFields_nil _ _)
    have hhead : (s ++ v).head? = s.head? := List.head?_append_of_ne_nil _ hs
    rw [readFields] at h
    rw [readFields, readFields, hhead, startField_append hs]
    by_cases hend : s.head?.all c.inEventSplit = true
    · rw [if_pos hend, if_pos hend]
    · rw [if_neg hend] at h
      rw [if_neg hend, if_neg hend]
      cases hstart : startField f s with
      | none => rfl
      | some p =>
        obtain ⟨delimEnd, rest⟩ := p
        rw [hstart] at h
        simp only [Option.map_some] at h ⊢
        have htext : (readContents c delimEnd f.logEscapeChar rest).2 ≠ [] := by
          intro hnil
          rw [hnil] at h
          split at h
          · exact h rfl
          · exact h rfl
        have happend : readContents c delimEnd f.logEscapeChar (rest ++ v) =
            ((readContents c delimEnd f.logEscapeChar rest).1,
              (readContents c delimEnd f.logEscapeChar rest).2 ++ v) := by
          cases rest with
          | nil =>
            exact absurd (List.suffix_nil.1 (readContents_suffix delimEnd f.logEscapeChar [])) htext
          | cons b rest => exact readText_append htext v
        rw [happend]
        dsimp only
        have hhead' : ((readContents c delimEnd f.logEscapeChar rest).2 ++ v).head? =
            (readContents c delimEnd f.logEscapeChar rest).2.head? :=
          List.head?_append_of_ne_nil _ htext
        rw [hhead']
        split
        · rfl
        · rename_i e' hset
          rw [hset] at h
          dsimp only at h
          split_ifs at h ⊢ with hstop
          · rfl
          · have hskip : c.skipSplit (readContents c delimEnd f.logEscapeChar rest).2 ≠ [] := by
              intro hnil
              rw [hnil] at h
              exact h (readFields_nil _ _)
            rw [skipSplit_append_of_ne_nil hskip, ih h]

lemma EndsSplit.of_cons {b : Byte} (h : c.EndsSplit (b :: s)) :
    c.EndsSplit s ∧ (s = [] → c.inEventSplit b = true) :=
  ⟨h.of_suffix (List.suffix_cons b s), fun hs => h b (by rw [hs]; rfl)⟩

/-- Behind whole records, the voids and comments go on with those of the next text. -/
lemma consumeVoids_append (stale : Bytes → Bytes) (comment : Option Bytes)
    (hfree : c.HeaderFree (comment.getD [] ++ s)) (hend : c.EndsSplit s)
    (hcomment : comment = none ∨ s ≠ []) (v : Bytes) :
    ∃ t, consumeVoids stale c comment s = (c, t, none) ∧
      consumeVoids stale c comment (s ++ v) =
        if t = [] then consumeVoids stale c none v else (c, t ++ v, none) := by
  induction s generalizing comment with
  | nil =>
    obtain rfl := hcomment.resolve_right (by simp)
    exact ⟨[], rfl, rfl⟩
  | cons b s ih =>
    obtain ⟨hends, hlast⟩ := hend.of_cons
    cases comment with
    | none =>
      have hfrees : c.HeaderFree s := hfree.of_suffix (List.suffix_cons b s)
      rw [List.cons_append, consumeVoids, consumeVoids]
      split_ifs with hvoid hcomments
      · exact ih none hfrees hends (Or.inl rfl)
      · refine ih (some [b]) hfree hends (Or.inr fun hs => hvoid ?_)
        rw [isVoid, hlast hs, Bool.or_true]
      · exact ⟨b :: s, rfl, by rw [if_neg (List.cons_ne_nil b s)]; rfl⟩
    | some comment =>
      replace hfree : c.HeaderFree (comment ++ b :: s) := hfree
      have hfrees : c.HeaderFree s :=
        hfree.of_suffix ((List.suffix_cons b s).trans (List.suffix_append _ _))
      rw [List.cons_append, consumeVoids, consumeVoids]
      split_ifs with hb
      · have hcommentFree := hfree.of_prefix (List.prefix_append comment (b :: s))
        rw [endComment_of_headerFree hcommentFree, endComment_of_headerFree hcommentFree]
        exact ih none hfrees hends (Or.inl rfl)
      · refine ih (some (comment ++ [b])) ?_ hends (Or.inr fun hs => hb (hlast hs))
        show c.HeaderFree (comment ++ [b] ++ s)
        rw [List.append_assoc]
        exact hfree

lemma skipRecord_append (hend : c.EndsSplit s) (hs : s ≠ []) (v : Bytes) :
    c.skipRecord (s ++ v) =
      if c.skipRecord s = [] then v.dropWhile c.inEventSplit else c.skipRecord s ++ v := by
  have hdrop : s.dropWhile (fun b => ! c.inEventSplit b) ≠ [] := by
    intro hnil
    have hlast := List.dropWhile_eq_nil_iff.1 hnil _ (List.getLast_mem hs)
    rw [hend _ (List.getLast?_eq_some_getLast hs)] at hlast
    exact absurd hlast (by simp)
  rw [skipRecord, skipRecord, dropWhile_append_of_ne_nil hdrop]
  split_ifs with hnil
  · rw [List.dropWhile_append, if_pos (by simpa using hnil)]
  · exact dropWhile_append_of_ne_nil hnil v

variable (conv) in
/-- A call in whole records. -/
lemma read_append (stale : Bytes → Bytes) (hfree : c.HeaderFree s) (hend : c.EndsSplit s)
    (hcloses : ∀ t, consumeVoids stale c none s = (c, t, none) → t ≠ [] →
      (readFields conv c c.fields [] t).2 ≠ []) (v : Bytes) :
    read conv stale c s = (c, [], .eof) ∧ read conv stale c (s ++ v) = read conv stale c v ∨
      (∃ rest, read conv stale c s = (c, rest, .threw) ∧
        read conv stale c (s ++ v) = (c, rest ++ v, .threw)) ∨
      ∃ rest e, read conv stale c s = (c, rest, .event e) ∧
        read conv stale c (s ++ v) =
          (c, if rest = [] then v.dropWhile c.inEventSplit else rest ++ v, .event e) := by
  obtain ⟨t, ht, happend⟩ := consumeVoids_append stale none hfree hend (Or.inl rfl) v
  cases t with
  | nil =>
    rw [if_pos rfl] at happend
    refine Or.inl ⟨by rw [read, ht], ?_⟩
    rw [read, read, happend]
  | cons b t =>
    rw [if_neg (List.cons_ne_nil b t)] at happend
    have hfields := hcloses (b :: t) ht (List.cons_ne_nil b t)
    have hsuffix : (readFields conv c c.fields [] (b :: t)).2 <:+ s := by
      have hvoids := (consumeVoids_suffix stale c none s).1
      rw [ht] at hvoids
      exact (readFields_suffix conv c.fields [] (b :: t)).trans hvoids
    have hboth := readFields_append hfields v
    refine Or.inr ?_
    rw [read, read, ht, happend]
    simp only [List.cons_append] at hboth ⊢
    rw [hboth]
    generalize readFields conv c c.fields [] (b :: t) = result at hfields hsuffix
    obtain ⟨_ | e, rest⟩ := result
    · exact Or.inl ⟨rest, rfl, rfl⟩
    · refine Or.inr ⟨c.skipRecord rest, e, rfl, ?_⟩
      rw [← skipRecord_append (hend.of_suffix hsuffix) hfields]

variable (conv) in
/-- Characters that end records are skipped in front of a record. -/
lemma read_dropWhile (stale : Bytes → Bytes) (c : LogCodec) (v : Bytes) :
    read conv stale c (v.dropWhile c.inEventSplit) = read conv stale c v := by
  have hvoids : consumeVoids stale c none v =
      consumeVoids stale c none (v.dropWhile c.inEventSplit) := by
    conv_lhs => rw [← List.takeWhile_append_dropWhile (p := c.inEventSplit) (l := v)]
    refine consumeVoids_void (fun b hb => ?_) _
    rw [isVoid, List.mem_takeWhile_imp hb, Bool.or_true]
  rw [read, read, hvoids]

/-! ### The events of two pieces -/

lemma Position.trans {t : Bytes} (hs : Position conv c w s) (ht : Position conv c s t) :
    Position conv c w t := by
  induction ht with
  | start => exact hs
  | next _ hread ih => exact ih.next hread

lemma Closes.of_position (h : Closes conv c w) (hs : Position conv c w s) : Closes conv c s :=
  fun t ht => h t (hs.trans ht)

/-- Without headers, it does not matter what is left in the buffer. -/
lemma read_of_headerFree (stale stale' : Bytes → Bytes) (h : c.HeaderFree s) :
    read conv stale c s = read conv stale' c s := by
  rw [read, read, consumeVoids_congr stale stale' none h.noBareHeader]

variable (stale : List Bytes → Bytes → Bytes)

variable (conv) in
/-- The events of whole records, and of the text behind them. -/
lemma drain_append (p : List Bytes) (hfree : c.HeaderFree s) (hend : c.EndsSplit s)
    (hcloses : Closes conv c s) (v : Bytes) :
    let drain (w : Bytes) := (textCodec conv stale c).drain { codec := c, past := p, stream := w }
    (drain (s ++ v)).1 = (drain s).1 ++ if (drain s).2.1 = .stopped then (drain v).1 else [] := by
  intro drain
  have heof (w : Bytes) :
      (textCodec conv stale c).eof { codec := c, past := p, stream := w } = false := rfl
  induction hn : s.length using Nat.strong_induction_on generalizing s with
  | _ n ih =>
  have hhere (t : Bytes) (ht : consumeVoids (stale p) c none s = (c, t, none)) (hne : t ≠ []) :
      (readFields conv c c.fields [] t).2 ≠ [] := by
    refine hcloses s .start t ?_ hne
    rw [← ht]
    exact consumeVoids_congr _ _ none hfree.noBareHeader
  rcases read_append conv (stale p) hfree hend hhere v with
    ⟨hs, hsv⟩ | ⟨rest, hs, hsv⟩ | ⟨rest, e, hs, hsv⟩
  · -- nothing but voids and comments
    have hstop : (textCodec conv stale c).read { codec := c, past := p, stream := s } =
        (.stop, { codec := c, past := p, stream := [], eof := true }) := by
      show readSource conv stale _ = _
      rw [readSource, hs]
    have hsame : drain (s ++ v) = drain v := by
      refine TextCodec.drain_of_read (heof _) (heof _) ?_
      show readSource conv stale _ = readSource conv stale _
      rw [readSource, readSource, hsv]
    rw [show drain s = _ from TextCodec.drain_stop (heof s) hstop, hsame]
    rfl
  · have hthrew (u t : Bytes) (h : read conv (stale p) c u = (c, t, .threw)) :
        (textCodec conv stale c).read { codec := c, past := p, stream := u } =
          (.threw, { codec := c, past := p, stream := t }) := by
      show readSource conv stale _ = _
      rw [readSource, h]
    rw [show drain s = _ from TextCodec.drain_threw (heof s) (hthrew s rest hs),
      show drain (s ++ v) = _ from TextCodec.drain_threw (heof _) (hthrew _ _ hsv)]
    rfl
  · have hvalue (u t : Bytes) (h : read conv (stale p) c u = (c, t, .event e)) :
        drain u = (e :: ((textCodec conv stale c).drain
          { codec := c, past := p, stream := t, eof := decide (t = []) }).1,
          ((textCodec conv stale c).drain
            { codec := c, past := p, stream := t, eof := decide (t = []) }).2) := by
      refine TextCodec.drain_value (heof u) ?_
      show readSource conv stale _ = _
      rw [readSource, h]
    have hopen {t : Bytes} (ht : t ≠ []) : (textCodec conv stale c).drain
        { codec := c, past := p, stream := t, eof := decide (t = []) } = drain t := by
      rw [decide_eq_false ht]
    have hclosed : (textCodec conv stale c).drain
        { codec := c, past := p, stream := [], eof := decide (([] : Bytes) = []) } =
          ([], .stopped, { codec := c, past := p, stream := [], eof := true }) :=
      TextCodec.drain_eof rfl
    rw [hvalue _ _ hs, hvalue _ _ hsv, List.cons_append]
    refine congrArg (e :: ·) ?_
    by_cases hrest : rest = []
    · subst hrest
      rw [if_pos rfl, hclosed, List.nil_append, if_pos rfl]
      have hvoids := read_dropWhile conv (stale p) c v
      by_cases hdrop : v.dropWhile c.inEventSplit = []
      · rw [hdrop] at hvoids ⊢
        have hstop : (textCodec conv stale c).read { codec := c, past := p, stream := v } =
            (.stop, { codec := c, past := p, stream := [], eof := true }) := by
          show readSource conv stale _ = _
          rw [readSource, ← hvoids]
          rfl
        rw [hclosed, show drain v = _ from TextCodec.drain_stop (heof v) hstop]
      · rw [hopen hdrop]
        refine congrArg Prod.fst (TextCodec.drain_of_read (heof _) (heof _) ?_)
        show readSource conv stale _ = readSource conv stale _
        rw [readSource, readSource, hvoids]
    · have hsuffix : rest <:+ s := by
        have hread := read_suffix conv (stale p) c s
        rw [hs] at hread
        exact hread
      have hposition : Position conv c s rest :=
        Position.start.next ((read_of_headerFree _ (stale p) hfree).trans hs)
      rw [if_neg hrest, hopen (by simp [hrest]), hopen hrest]
      exact ih rest.length (hn ▸ read_length conv hs) (hfree.of_suffix hsuffix)
        (hend.of_suffix hsuffix) (hcloses.of_position hposition) rfl

/-- A piece of whole records without headers. -/
structure Whole (conv : LogConversions φ δ χ θ) (c : LogCodec) (w : Bytes) : Prop where
  headerFree : c.HeaderFree w
  endsSplit : c.EndsSplit w
  closes : Closes conv c w

/-- A whole piece in front of others. -/
lemma alone_append (hw : Whole conv c w) (hv : c.NoBareHeader v) :
    ((textCodec conv stale c).alone (w ++ v)).1 = ((textCodec conv stale c).alone w).1 ++
      if ((textCodec conv stale c).alone w).2 = .stopped then
        ((textCodec conv stale c).alone v).1 else [] := by
  have happend := drain_append conv stale [w ++ v] hw.headerFree hw.endsSplit hw.closes v
  obtain ⟨hvalues, hend⟩ := drain_past conv stale c hw.headerFree.noBareHeader [w ++ v] [w]
  obtain ⟨hrest, -⟩ := drain_past conv stale c hv [w ++ v] [v]
  dsimp only at happend
  rw [hvalues, hend, hrest] at happend
  exact happend

/-- What `readFromLog` leaves of a file. -/
lemma readFromLog_snd (w : Bytes) :
    (TailMode.readFromLog (textCodec conv stale c) Source.stream w).2 =
      if ((textCodec conv stale c).alone w).2 = .stopped then some [] else none := by
  rw [TailMode.readFromLog, TextCodec.alone]
  dsimp only
  by_cases hstopped : ((textCodec conv stale c).drain
      ((textCodec conv stale c).feed (textCodec conv stale c).start w)).2.1 = .stopped
  · obtain ⟨heof, hstream⟩ := drain_stopped conv stale c
      (s := (textCodec conv stale c).feed (textCodec conv stale c).start w)
      (fun h => absurd h (by simp [textCodec])) hstopped
    rw [if_pos hstopped, if_pos ⟨hstopped, Or.inl heof⟩, hstream]
  · rw [if_neg hstopped, if_neg fun h => hstopped h.1]

/-- The polls of a file that grows by whole pieces. -/
lemma poll_of_whole {ws : List Bytes} (hbare : c.NoBareHeader ws.flatten)
    (hwhole : ∀ w ∈ (ws.filter (· ≠ [])).dropLast, Whole conv c w) :
    TailMode.poll (textCodec conv stale c) Source.stream (some []) ws =
      ((textCodec conv stale c).alone ws.flatten).1 := by
  induction ws with
  | nil =>
    have hread : (textCodec conv stale c).read
        ((textCodec conv stale c).feed (textCodec conv stale c).start []) =
          (.stop, { codec := c, past := [[]], stream := [], eof := true }) := rfl
    rw [TextCodec.alone, List.flatten_nil, TextCodec.drain_stop rfl hread]
    rfl
  | cons w ws ih =>
    have hbares : c.NoBareHeader ws.flatten := hbare.of_suffix (List.suffix_append w _)
    by_cases hw : w = []
    · subst hw
      rw [TailMode.poll_nil_cons]
      exact ih hbares (by simpa using hwhole)
    rw [TailMode.poll_cons_of_ne_nil hw, readFromLog_snd stale w, List.flatten_cons]
    rw [List.filter_cons_of_pos (by simpa using hw)] at hwhole
    by_cases hempty : ws.filter (· ≠ []) = []
    · -- the last piece
      have hall : ∀ v ∈ ws, v = [] := by simpa using hempty
      have hpoll : TailMode.poll (textCodec conv stale c) Source.stream
          (if ((textCodec conv stale c).alone w).2 = .stopped then some [] else none) ws = [] := by
        split_ifs
        · exact TailMode.poll_of_empty hall
        · exact TailMode.poll_none ws
      rw [hpoll, List.flatten_eq_nil_iff.2 hall, List.append_nil, List.append_nil]
      rfl
    · rw [List.dropLast_cons_of_ne_nil hempty] at hwhole
      obtain ⟨hwhole, hrest⟩ := List.forall_mem_cons.1 hwhole
      rw [alone_append stale hwhole hbares]
      refine congrArg (((textCodec conv stale c).alone w).1 ++ ·) ?_
      split_ifs
      · exact ih hbares hrest
      · exact TailMode.poll_none ws

end LogCodec

namespace TailMode

variable {φ δ χ θ : Type*}

/-- The log file grows by whole pieces. -/
structure GrowsWhole (conv : LogConversions φ δ χ θ) (l : LogCodec) (w : Bytes)
    (ws : List Bytes) : Prop where
  noBareHeader : l.NoBareHeader (w ++ ws.flatten)
  whole : ∀ v ∈ ((w :: ws).filter (· ≠ [])).dropLast, LogCodec.Whole conv l v

/-- What is delivered of a growing file is what one codec reads from its final content: for JSON and
XML if the content is there at once, for log files if they grow by whole pieces. -/
theorem tail_one_pass {γ π ω : Type*} (conv : LogConversions φ δ χ θ) (y : Yajl γ π φ)
    (order : List (ℕ × Bytes) → List (ℕ × Bytes)) (x : LibXML ω) (objects : List CodecField)
    (c : FieldCodec) (stale : List Bytes → Bytes → Bytes) (l : LogCodec) (w : Bytes)
    (ws : List Bytes) :
    (AtOnce (JSONCodec.textCodec y conv order objects c) JSONCodec.Source.stream w ws →
        OnePass (JSONCodec.textCodec y conv order objects c) JSONCodec.Source.stream w ws) ∧
      (AtOnce (XMLCodec.textCodec x conv objects c) XMLCodec.State.stream w ws →
        OnePass (XMLCodec.textCodec x conv objects c) XMLCodec.State.stream w ws) ∧
      (GrowsWhole conv l w ws →
        OnePass (LogCodec.textCodec conv stale l) LogCodec.Source.stream w ws) := by
  refine ⟨AtOnce.onePass, AtOnce.onePass, fun ⟨hbare, hwhole⟩ => ?_⟩
  have hread : (LogCodec.textCodec conv stale l).read
      ((LogCodec.textCodec conv stale l).feed (LogCodec.textCodec conv stale l).start []) =
        (.stop, { codec := l, past := [[]], stream := [], eof := true }) := rfl
  have hnothing := TextCodec.drain_stop rfl hread
  rw [OnePass, tail_eq_poll fun _ => ⟨by rw [TextCodec.alone, hnothing], by rw [hnothing]⟩]
  exact LogCodec.poll_of_whole stale hbare hwhole

/-- A JSON text and an XML text that are there at once, and a log file of two records. -/
theorem tail_one_pass_small :
    OnePass (JSONCodec.textCodec JSONCodec.smallYajl LogCodec.signedDecimals id
        JSONCodec.jsonFields JSONCodec.jsonCodec) JSONCodec.Source.stream JSONCodec.jsonText [[]] ∧
      OnePass (XMLCodec.textCodec XMLCodec.smallXML LogCodec.signedDecimals XMLCodec.xmlFields
        XMLCodec.xmlCodec) XMLCodec.State.stream (ascii "<Events></Events>") [[]] ∧
      OnePass (LogCodec.textCodec LogCodec.decimals (fun _ _ => []) LogCodec.twoNumbers)
        LogCodec.Source.stream (ascii "7 8\n") [ascii "9 1\n"] := by
  have hjson := tail_one_pass LogCodec.signedDecimals JSONCodec.smallYajl id XMLCodec.smallXML
    JSONCodec.jsonFields JSONCodec.jsonCodec (fun _ _ => []) LogCodec.twoNumbers
    JSONCodec.jsonText [[]]
  have hxml := tail_one_pass LogCodec.signedDecimals JSONCodec.smallYajl id XMLCodec.smallXML
    XMLCodec.xmlFields XMLCodec.xmlCodec (fun _ _ => []) LogCodec.twoNumbers
    (ascii "<Events></Events>") [[]]
  have hlog := tail_one_pass LogCodec.decimals JSONCodec.smallYajl id XMLCodec.smallXML
    [] JSONCodec.jsonCodec (fun _ _ => []) LogCodec.twoNumbers (ascii "7 8\n") [ascii "9 1\n"]
  refine ⟨hjson.1 ⟨by decide +kernel, ?_, fun h => absurd h (by decide +kernel)⟩,
    hxml.2.1 ⟨by decide +kernel, ?_, fun h => absurd h (by decide +kernel)⟩,
    hlog.2.2 ⟨Or.inl rfl, ?_⟩⟩
  · intro v hv
    simp only [List.mem_cons, List.not_mem_nil, or_false] at hv
    rcases hv with rfl | rfl
    · exact TextCodec.apply_drain 3 (fun x => JSONCodec.Source.stream x.2.2) (by decide +kernel)
    · exact TextCodec.apply_drain 1 (fun x => JSONCodec.Source.stream x.2.2) (by decide +kernel)
  · intro v hv
    simp only [List.mem_cons, List.not_mem_nil, or_false] at hv
    rcases hv with rfl | rfl
    · exact TextCodec.apply_drain 1 (fun x => XMLCodec.State.stream x.2.2) (by decide +kernel)
    · exact TextCodec.apply_drain 1 (fun x => XMLCodec.State.stream x.2.2) (by decide +kernel)
  · have hfields : ∀ f ∈ LogCodec.twoNumbers.fields, f.logDelimStart = 0 ∧ f.logDelimEnd = 0 := by
      decide +kernel
    have hplain : LogCodec.twoNumbers.Plain := by
      refine ⟨rfl, hfields, fun b hb => ?_⟩
      have hsplit : b ∈ [32, 9] := List.contains_iff_mem.1 hb
      simp only [List.mem_cons, List.not_mem_nil, or_false] at hsplit
      rcases hsplit with rfl | rfl <;> decide +kernel
    intro v hv
    have hv' : v ∈ [ascii "7 8\n"] := hv
    obtain rfl := List.mem_singleton.1 hv'
    have hends : LogCodec.twoNumbers.EndsSplit (ascii "7 8\n") := by
      intro b hb
      obtain rfl : 10 = b := Option.some.inj hb
      decide +kernel
    exact ⟨Or.inl rfl, hends, hplain.closes hends⟩

/-- A record is not complete when the file is polled. -/
theorem not_one_pass :
    ¬ OnePass (LogCodec.textCodec LogCodec.decimals (fun _ _ => []) LogCodec.twoNumbers)
      LogCodec.Source.stream (ascii "7 8\n9") [ascii "0 1\n"] := by
  set codec := LogCodec.textCodec LogCodec.decimals (fun _ _ => []) LogCodec.twoNumbers
  have hfirst : (readFromLog codec LogCodec.Source.stream (ascii "7 8\n9")).1.length = 2 :=
    TextCodec.apply_drain 3 (fun x => x.1.length) (by decide +kernel)
  have hleft : (readFromLog codec LogCodec.Source.stream (ascii "7 8\n9")).2 = some [] :=
    TextCodec.apply_drain 3 (fun x => if x.2.1 = .stopped ∧ (codec.eof x.2.2 = true ∨
      ascii "7 8\n9" = []) then some x.2.2.stream else none) (by decide +kernel)
  have hsecond : (readFromLog codec LogCodec.Source.stream (ascii "0 1\n")).1.length = 1 :=
    TextCodec.apply_drain 3 (fun x => x.1.length) (by decide +kernel)
  have hwhole : (codec.alone (ascii "7 8\n9" ++ [ascii "0 1\n"].flatten)).1.length = 2 :=
    TextCodec.apply_drain 3 (fun x => x.1.length) (by decide +kernel)
  intro h
  have hlen := congrArg List.length h
  rw [tail, hleft, poll_cons_of_ne_nil (by decide +kernel), poll_nil, List.append_nil,
    List.length_append, hfirst, hsecond, hwhole] at hlen
  exact absurd hlen (by decide)

end TailMode

end PionCore.Platform
