/-
# ELF directives

A `#Fields` directive gives a codec with ELF headers a new format.  `changeELFFormat` clears the
format before it looks for the first name, so that an unknown name leaves the fields in front of it;
and the character behind the header is dropped, whatever it is (`allOrNothing_iff`).
-/
import PionCore.Lib.Runs
import PionCore.Lib.Words
import PionCore.Platform.LogReader

namespace PionCore.Platform.LogCodec

open PionCore.Lib

/-- The names that a text has between blanks. -/
def blankWords (s : Bytes) : List Bytes := parts (· == 32) s

/-- The position of the field that is mapped to a name. -/
def fieldIndex (c : LogCodec) (name : Bytes) : Option ℕ := c.fieldMap.findIdx? fun e => e.1 == name

/-- The fields of some names, if all of them are mapped. -/
def fieldsNamed (c : LogCodec) (names : List Bytes) : Option (List ℕ) := names.mapM c.fieldIndex

/-- The fields of the names in front of the first one that is not mapped. -/
def knownFields (c : LogCodec) (names : List Bytes) : List ℕ :=
  (names.takeWhile c.isMapped).filterMap c.fieldIndex

/-- A comment line that begins with the header. -/
structure DirectiveLine (c : LogCodec) (line : Bytes) : Prop where
  header : fieldsElfHeader <+: line
  comment : c.commentChars.contains 35 = true
  text : ∀ b ∈ line, c.inEventSplit b = false
  notVoid : c.inFieldSplit 35 = false

/-- Behind the line the format is the one that the line names; or, if it names an unknown field or
no field at all, the one in force before.  Nothing else has changed. -/
def AllOrNothing (c : LogCodec) (line : Bytes) (after : LogCodec) : Prop :=
  match c.fieldsNamed (blankWords (line.drop fieldsElfHeader.length)) with
  | some [] => after = { c with format := [] } ∨ after = c
  | some format => after = { c with format }
  | none => after = c

/-- The text that `changeELFFormat` looks at: what the buffer has behind the header and one more
character, up to a zero or a separator. -/
def seenText (c : LogCodec) (stale line : Bytes) : Bytes :=
  (if line.length ≤ fieldsElfHeader.length then stale
    else (line.take readBufferSize).drop (fieldsElfHeader.length + 1)).takeWhile
      fun b => ! (b == 0 || c.eventSplit.contains b)

/-- Either all fields that the line names are mapped, a blank is behind the header, there is no zero
byte, and nothing but blanks is too much for the buffer; or the line names an unknown field or none,
and the text that is seen begins with just the fields that are in force, or with none. -/
def Honoured (c : LogCodec) (stale line : Bytes) : Prop :=
  match c.fieldsNamed (blankWords (line.drop fieldsElfHeader.length)) with
  | some [] => c.knownFields (blankWords (c.seenText stale line)) = [] ∨
      c.knownFields (blankWords (c.seenText stale line)) = c.format
  | some _ => (line)[fieldsElfHeader.length]? = some 32 ∧ 0 ∉ line ∧
      ∀ b ∈ line.drop readBufferSize, b = 32
  | none => c.knownFields (blankWords (c.seenText stale line)) = c.format

variable {c : LogCodec} {stale : Bytes → Bytes} {line rest fmt s t : Bytes} {names : List Bytes}

/-! ### Names -/

lemma fieldIndex_isSome {name : Bytes} : (c.fieldIndex name).isSome = c.isMapped name := by
  rw [fieldIndex, isMapped, findField, List.findIdx?_isSome]
  exact Bool.eq_iff_iff.2 (by simp)

lemma knownFields_cons {name : Bytes} : c.knownFields (name :: names) =
    (c.fieldIndex name).elim [] fun i => i :: c.knownFields names := by
  rw [knownFields, List.takeWhile_cons, ← fieldIndex_isSome]
  cases hindex : c.fieldIndex name with
  | none => rfl
  | some i =>
    rw [Option.isSome_some, if_pos rfl, List.filterMap_cons_some hindex]
    rfl

lemma lookupFields_fst : (c.lookupFields names).1 = c.knownFields names := by
  induction names with
  | nil => rfl
  | cons name names ih =>
    rw [knownFields_cons, lookupFields, ← ih, fieldIndex]
    cases c.fieldMap.findIdx? fun e => e.1 == name <;> rfl

/-- A name that is not mapped does not count. -/
lemma knownFields_append {names' : List Bytes} (h : ∀ name ∈ names', c.isMapped name = false) :
    c.knownFields (names ++ names') = c.knownFields names := by
  induction names with
  | nil =>
    cases names' with
    | nil => rfl
    | cons name names' =>
      rw [List.nil_append, knownFields, List.takeWhile_cons, h name List.mem_cons_self]
      rfl
  | cons name names ih => rw [List.cons_append, knownFields_cons, knownFields_cons, ih]

/-- The field at a position has the name that was looked for. -/
lemma name_of_fieldIndex {name : Bytes} {i : ℕ} (h : c.fieldIndex name = some i) :
    (c.fieldMap[i]?.map Prod.fst) = some name := by
  obtain ⟨hi, hname, -⟩ := List.findIdx?_eq_some_iff_getElem.1 h
  rw [List.getElem?_eq_getElem hi]
  exact congrArg some (by simpa using hname)

/-- Some names are known from their fields. -/
lemma prefix_of_knownFields {format : List ℕ} (h : c.fieldsNamed names = some format)
    {names' : List Bytes} (hknown : c.knownFields names' = format) : names <+: names' := by
  induction names generalizing names' format with
  | nil => exact List.nil_prefix
  | cons name names ih =>
    rw [fieldsNamed, List.mapM_cons] at h
    obtain ⟨i, hi, h⟩ := Option.bind_eq_some_iff.1 h
    obtain ⟨is, his, h⟩ := Option.bind_eq_some_iff.1 h
    obtain rfl := Option.some.inj h
    cases names' with
    | nil => cases hknown
    | cons name' names' =>
      rw [knownFields_cons] at hknown
      cases hindex : c.fieldIndex name' with
      | none =>
        rw [hindex] at hknown
        cases hknown
      | some i' =>
        rw [hindex, Option.elim_some, List.cons.injEq] at hknown
        obtain ⟨rfl, hrest⟩ := hknown
        have hname := (name_of_fieldIndex hindex).symm.trans (name_of_fieldIndex hi)
        rw [Option.some.inj hname]
        exact List.cons_prefix_cons.2 ⟨rfl, ih his hrest⟩

/-- Names that are all mapped. -/
lemma knownFields_of_fieldsNamed {format : List ℕ} (h : c.fieldsNamed names = some format) :
    c.knownFields names = format := by
  induction names generalizing format with
  | nil => exact Option.some.inj h
  | cons name names ih =>
    rw [fieldsNamed, List.mapM_cons] at h
    obtain ⟨i, hi, h⟩ := Option.bind_eq_some_iff.1 h
    obtain ⟨is, his, h⟩ := Option.bind_eq_some_iff.1 h
    obtain rfl := Option.some.inj h
    rw [knownFields_cons, hi, Option.elim_some, ih his]

/-- A last name, which may be empty. -/
lemma exists_blankWords {name : Bytes} (h : ∀ b ∈ name, (b == 32) = false) :
    ∃ t : List Bytes, (∀ name ∈ t, name = []) ∧ [name] = blankWords name ++ t := by
  by_cases hname : name = []
  · subst hname
    exact ⟨[[]], by simp, rfl⟩
  · exact ⟨[], by simp, by rw [blankWords, parts_of_forall h hname, List.append_nil]⟩

/-- The names that the loop cuts out are the words in front of the end; an empty one may follow. -/
lemma elfNames_eq (eventSplit : Bytes) {fuel : ℕ} (hfuel : fmt.length < fuel) :
    ∃ t, (∀ name ∈ t, name = []) ∧ elfNames eventSplit fuel fmt =
      blankWords (fmt.takeWhile fun b => ! (b == 0 || eventSplit.contains b)) ++ t := by
  induction fuel generalizing fmt with
  | zero => cases hfuel
  | succ fuel ih =>
    rw [elfNames]
    dsimp only
    split_ifs with hend
    · -- the text has ended
      refine ⟨[], by simp, ?_⟩
      cases fmt with
      | nil => rfl
      | cons b fmt =>
        have hb : (b == 0 || eventSplit.contains b) = true := hend
        rw [List.takeWhile_cons, hb]
        rfl
    -- blanks, and a name up to the next blank or the end
    obtain ⟨blanks, hblanks⟩ : ∃ l, l = fmt.takeWhile (· == 32) := ⟨_, rfl⟩
    obtain ⟨f, hf⟩ : ∃ l, l = fmt.dropWhile (· == 32) := ⟨_, rfl⟩
    have hfmt : fmt = blanks ++ f := by rw [hblanks, hf, List.takeWhile_append_dropWhile]
    have hall : ∀ b ∈ blanks, (b == 32) = true := fun b hb =>
      List.mem_takeWhile_imp (p := (· == 32)) (hblanks ▸ hb)
    -- a separator of events that is a blank would have ended the loop at the first one
    have hgo : ∀ b ∈ blanks, (! (b == 0 || eventSplit.contains b)) = true := by
      cases hb : blanks with
      | nil => simp
      | cons b₀ t =>
        intro b hmem
        have hfirst : ¬ (b₀ == 0 || eventSplit.contains b₀) = true := by
          rw [hfmt, hb] at hend
          exact hend
        have hsame : b = b₀ := by
          rw [eq_of_beq (hall b (hb ▸ hmem)), eq_of_beq (hall b₀ (hb ▸ List.mem_cons_self))]
        rw [hsame]
        simpa using hfirst
    obtain ⟨name, hname⟩ : ∃ l, l = f.takeWhile fun b =>
        ! (b == 0 || eventSplit.contains b) && b != 32 := ⟨_, rfl⟩
    have hchars : ∀ b ∈ name, (! (b == 0 || eventSplit.contains b)) = true ∧ (b == 32) = false := by
      intro b hb
      have hq := List.mem_takeWhile_imp (hname ▸ hb)
      rw [Bool.and_eq_true] at hq
      exact ⟨hq.1, by simpa using hq.2⟩
    rw [← hf, ← hname, hfmt, List.takeWhile_append_of_pos hgo, blankWords, parts_append_left hall]
    have hsplit : f = name ++ f.dropWhile fun b =>
        ! (b == 0 || eventSplit.contains b) && b != 32 := by
      rw [hname, List.takeWhile_append_dropWhile]
    cases hr : f.dropWhile fun b => ! (b == 0 || eventSplit.contains b) && b != 32 with
    | nil =>
      -- the name is the last one
      rw [hr, List.append_nil] at hsplit
      rw [hsplit, List.takeWhile_eq_self_iff.2 fun b hb => (hchars b hb).1]
      exact exists_blankWords fun b hb => (hchars b hb).2
    | cons b r =>
      rw [hr] at hsplit
      have hstop := dropWhile_cons_head hr
      rw [hsplit, List.takeWhile_append_of_pos fun b hb => (hchars b hb).1, List.takeWhile_cons]
      dsimp only
      by_cases hb : (b == 0 || eventSplit.contains b) = true
      · rw [if_pos hb, hb, Bool.not_true, if_neg Bool.false_ne_true, List.append_nil]
        exact exists_blankWords fun b hb => (hchars b hb).2
      · -- a blank ends the name, and the loop goes on behind it
        rw [Bool.not_eq_true] at hb
        rw [hb, Bool.not_false, Bool.true_and] at hstop
        have hblank : (b == 32) = true := by simpa using hstop
        have hne : name ≠ [] := by
          rintro rfl
          rw [List.nil_append] at hsplit
          exact absurd (dropWhile_cons_head (hf.symm.trans hsplit)) (by rw [hblank]; decide)
        have hlength : r.length < fuel := by
          rw [hfmt, hsplit] at hfuel
          simp only [List.length_append, List.length_cons] at hfuel
          omega
        obtain ⟨t, ht, hnames⟩ := ih hlength
        refine ⟨t, ht, ?_⟩
        rw [if_neg (by rw [hb]; decide), if_pos (by rw [hb]; rfl),
          parts_append_cons (p := (· == 32)) hblank,
          parts_of_forall (fun b hb => (hchars b hb).2) hne, hnames]
        rfl

/-- The new format. -/
lemma changeELFFormat_fst (hempty : c.isMapped [] = false) :
    (c.changeELFFormat fmt).1 = { c with format := c.knownFields (blankWords
      (fmt.takeWhile fun b => ! (b == 0 || c.eventSplit.contains b))) } := by
  obtain ⟨t, ht, hnames⟩ := elfNames_eq c.eventSplit (Nat.lt_succ_self fmt.length)
  have hunmapped : ∀ name ∈ t, c.isMapped name = false := fun name hname => by
    rw [ht name hname, hempty]
  rw [changeELFFormat]
  dsimp only
  rw [lookupFields_fst, hnames, knownFields_append hunmapped]

/-- A line with the header is a directive. -/
lemma endComment_fst (hempty : c.isMapped [] = false) (helf : c.handleElfHeaders = true)
    (hheader : fieldsElfHeader <+: line) :
    (endComment stale c line rest).1 =
      { c with format := c.knownFields (blankWords (c.seenText (stale rest) line)) } := by
  have htake : line.take fieldsElfHeader.length = fieldsElfHeader :=
    (List.prefix_iff_eq_take.1 hheader).symm
  have hstring : cString fieldsElfHeader = fieldsElfHeader := by decide
  rw [endComment, if_pos helf, directive, htake, hstring, if_pos rfl]
  dsimp only
  rw [changeELFFormat_fst hempty, seenText]

/-! ### The text in the buffer -/

/-- What is behind the header and one more character: in the buffer, and too much for it. -/
lemma drop_header (hlong : fieldsElfHeader.length < line.length) :
    line.drop (fieldsElfHeader.length + 1) =
      (line.take readBufferSize).drop (fieldsElfHeader.length + 1) ++ line.drop readBufferSize := by
  conv_lhs => rw [← List.take_append_drop readBufferSize line]
  refine List.drop_append_of_le_length ?_
  rw [List.length_take, Nat.le_min]
  exact ⟨by decide, hlong⟩

lemma drop_header_cons (hlong : fieldsElfHeader.length < line.length) :
    line.drop fieldsElfHeader.length =
      (line)[fieldsElfHeader.length] :: line.drop (fieldsElfHeader.length + 1) :=
  List.drop_eq_getElem_cons hlong

/-- A line with a blank behind the header is seen with all its names. -/
lemma blankWords_seenText (htext : ∀ b ∈ line, c.inEventSplit b = false)
    (hblank : (line)[fieldsElfHeader.length]? = some 32) (hzero : (0 : Byte) ∉ line)
    (hrest : ∀ b ∈ line.drop readBufferSize, b = 32) :
    blankWords (c.seenText s line) = blankWords (line.drop fieldsElfHeader.length) := by
  obtain ⟨hlong, hblank⟩ := List.getElem?_eq_some_iff.1 hblank
  have hall : ∀ b ∈ (line.take readBufferSize).drop (fieldsElfHeader.length + 1),
      (! (b == 0 || c.eventSplit.contains b)) = true := by
    intro b hb
    have hmem : b ∈ line := List.mem_of_mem_take (List.mem_of_mem_drop hb)
    have h0 : (b == 0) = false := by
      rw [beq_eq_false_iff_ne]
      rintro rfl
      exact hzero hmem
    rw [h0, show c.eventSplit.contains b = false from htext b hmem]
    rfl
  rw [seenText, if_neg (by omega), List.takeWhile_eq_self_iff.2 hall, drop_header_cons hlong,
    hblank, drop_header hlong, blankWords, blankWords]
  have hleft := parts_append_left (p := (· == 32)) (s := [(32 : Byte)])
    (t := (line.take readBufferSize).drop (fieldsElfHeader.length + 1) ++
      line.drop readBufferSize) (by simp)
  rw [List.singleton_append] at hleft
  rw [hleft, parts_append_right fun b hb => by simpa using hrest b hb]

/-- If the names of the line are seen, nothing but blanks is not. -/
lemma readable_of_prefix (hne : blankWords (line.drop fieldsElfHeader.length) ≠ [])
    (hheader : fieldsElfHeader <+: line)
    (h : blankWords (line.drop fieldsElfHeader.length) <+: blankWords (c.seenText s line)) :
    (line)[fieldsElfHeader.length]? = some 32 ∧ 0 ∉ line ∧
      ∀ b ∈ line.drop readBufferSize, b = 32 := by
  have hlong : fieldsElfHeader.length < line.length := by
    by_contra hshort
    exact hne (by rw [List.drop_eq_nil_of_le (by omega)]; rfl)
  obtain ⟨more, hmore⟩ : c.seenText s line <+:
      (line.take readBufferSize).drop (fieldsElfHeader.length + 1) := by
    rw [seenText, if_neg (by omega)]
    exact List.takeWhile_prefix _
  -- the characters of the names, counted
  have hcount := (h.flatten).length_le
  rw [blankWords, blankWords, flatten_parts, flatten_parts, drop_header_cons hlong,
    drop_header hlong, ← hmore, List.filter_cons, List.filter_append, List.filter_append] at hcount
  split_ifs at hcount with hfirst
  · simp only [List.length_cons, List.length_append] at hcount
    omega
  · simp only [List.length_append] at hcount
    have hmore' : more.filter (fun b => ! (b == 32)) = [] :=
      List.eq_nil_of_length_eq_zero (by omega)
    have hrest : (line.drop readBufferSize).filter (fun b => ! (b == 32)) = [] :=
      List.eq_nil_of_length_eq_zero (by omega)
    rw [List.filter_eq_nil_iff] at hmore' hrest
    have hblank : (line)[fieldsElfHeader.length] = 32 := by simpa using hfirst
    have hrest' : ∀ b ∈ line.drop readBufferSize, b = 32 := fun b hb => by simpa using hrest b hb
    refine ⟨List.getElem?_eq_some_iff.2 ⟨hlong, hblank⟩, fun hzero => ?_, hrest'⟩
    rw [← List.take_append_drop fieldsElfHeader.length line,
      ← List.prefix_iff_eq_take.1 hheader, drop_header_cons hlong, drop_header hlong, ← hmore,
      hblank] at hzero
    simp only [List.mem_append, List.mem_cons] at hzero
    rcases hzero with hzero | hzero | (hzero | hzero) | hzero
    · exact absurd hzero (by decide)
    · exact absurd hzero (by decide)
    · exact absurd (List.mem_takeWhile_imp hzero) (by simp)
    · exact absurd (hmore' 0 hzero) (by decide)
    · exact absurd (hrest 0 hzero) (by decide)

/-- The line is read as one comment, and its end is the end of the comment. -/
lemma DirectiveLine.consumeVoids_eq (hline : DirectiveLine c line) :
    consumeVoids stale c none (line ++ rest) = consumeVoids stale c (some line) rest := by
  obtain ⟨t, rfl⟩ := hline.header
  have hfirst : fieldsElfHeader ++ t = 35 :: (ascii "Fields:" ++ t) := rfl
  have htext := hline.text
  rw [hfirst] at htext ⊢
  rw [List.cons_append, consumeVoids,
    not_isVoid hline.notVoid (htext 35 List.mem_cons_self), if_neg Bool.false_ne_true,
    if_pos hline.comment,
    consumeVoids_comment fun b hb => htext b (List.mem_cons_of_mem _ hb), List.singleton_append]

/-- A directive is all or nothing, just when it is honoured. -/
lemma endComment_allOrNothing (hempty : c.isMapped [] = false) (helf : c.handleElfHeaders = true)
    (hline : DirectiveLine c line) :
    AllOrNothing c line (endComment stale c line rest).1 ↔ Honoured c (stale rest) line := by
  rw [endComment_fst hempty helf hline.header, AllOrNothing, Honoured]
  have hsame : ∀ format format' : List ℕ,
      ({ c with format := format } : LogCodec) = { c with format := format' } ↔
        format = format' := by
    intro format format'
    constructor
    · intro h
      exact congrArg LogCodec.format h
    · rintro rfl
      rfl
  have hformat : ∀ format : List ℕ, ({ c with format := format } : LogCodec) = c ↔
      format = c.format := fun format => hsame format c.format
  cases hnamed : c.fieldsNamed (blankWords (line.drop fieldsElfHeader.length)) with
  | none => exact hformat _
  | some format =>
    cases format with
    | nil => exact or_congr (hsame _ _) (hformat _)
    | cons i is =>
      dsimp only
      rw [hsame]
      constructor
      · intro hknown
        refine readable_of_prefix ?_ hline.header (prefix_of_knownFields hnamed hknown)
        intro hnil
        rw [hnil] at hnamed
        cases hnamed
      · rintro ⟨hblank, hzero, hrest⟩
        rw [blankWords_seenText hline.text hblank hzero hrest]
        exact knownFields_of_fieldsNamed hnamed

/-! ### The names of a configured codec -/

/-- No field gets an empty name. -/
lemma Valid.nil_notMem_names {s s' : State} (h : Valid s) (hnil : [] ∉ s.codec.names) {e : Step}
    (hstep : step s e = some s') : [] ∉ s'.codec.names := by
  cases e with
  | fields fmt =>
    obtain ⟨-, ⟨⟩⟩ := Option.ite_none_right_eq_some.1 hstep
    exact hnil
  | updateVocabulary edits =>
    obtain rfl := Option.some.inj hstep
    have hren := updateFields_renewed (Vocabulary.sound_make edits) s.codec.format s.codec.fieldMap
    have hnames : (s.codec.updateVocabulary (Vocabulary.make edits)).1.names = s.codec.names :=
      forall₂_map_eq hren fun _ _ h => h.key
    rw [hnames]
    exact hnil
  | clone =>
    obtain rfl := Option.some.inj hstep
    dsimp only
    cases hd : s.codec.clone with
    | error x => exact hnil
    | ok d =>
      obtain ⟨-, -, rfl⟩ := clone_ok.1 hd
      intro hmem
      change [] ∈ (s.codec.blank.extend s.codec.fields).names at hmem
      rw [names_extend] at hmem
      obtain ⟨f, hf, hname⟩ := List.mem_map.1 hmem
      refine hnil ?_
      rw [← hname]
      exact List.mem_map_of_mem (f := Prod.fst) (h.wired.mem_of_mem_fields hf)

/-- In every state of a configured codec with ELF headers, a directive is all or nothing, just when
it is honoured. -/
theorem allOrNothing_iff {edits : List Vocabulary.Edit} {config : LogConfig} {c₀ : LogCodec}
    (hconfig : setConfig (Vocabulary.make edits) config = .ok c₀) {es : List Step} {s : State}
    (hrun : run step ⟨c₀, Vocabulary.make edits⟩ es = some s)
    (helf : s.codec.handleElfHeaders = true) (hline : DirectiveLine s.codec line)
    (stale : Bytes → Bytes) (rest : Bytes) :
    consumeVoids stale s.codec none (line ++ rest) =
        consumeVoids stale s.codec (some line) rest ∧
      (AllOrNothing s.codec line (endComment stale s.codec line rest).1 ↔
        Honoured s.codec (stale rest) line) := by
  have hsound := Vocabulary.sound_make edits
  obtain ⟨fs, hc⟩ := setConfig_configured hsound hconfig
  have hstart : [] ∉ c₀.names := by
    intro hmem
    rw [LogCodec.names, hc.fieldMap, List.map_map] at hmem
    obtain ⟨f, hf, hname⟩ := List.mem_map.1 hmem
    exact hc.named f hf hname
  have hnil : Valid s ∧ [] ∉ s.codec.names :=
    run_invariant (P := fun s => Valid s ∧ [] ∉ s.codec.names)
      (fun t e t' ht he => ⟨ht.1.next he, ht.1.nil_notMem_names ht.2 he⟩)
      ⟨⟨hc.wired, hsound⟩, hstart⟩ hrun
  have hempty : s.codec.isMapped [] = false := by
    rw [← Bool.not_eq_true, isMapped_iff]
    exact hnil.2
  exact ⟨hline.consumeVoids_eq, endComment_allOrNothing hempty helf hline⟩

/-- Two fields that ELF headers may name. -/
def elfConfig : LogConfig :=
  { headers := true
    fields :=
      [{ field := ascii "a", term := ascii "t" }, { field := ascii "b", term := ascii "u" }] }

def elfEdits : List Vocabulary.Edit :=
  [.addTerm { termId := ascii "t", termType := .int32 },
    .addTerm { termId := ascii "u", termType := .int32 }]

/-- The codec that is configured with them. -/
def elfCodec : LogCodec :=
  (setConfig (Vocabulary.make elfEdits) elfConfig).toOption.getD {}

lemma setConfig_elfConfig : setConfig (Vocabulary.make elfEdits) elfConfig = .ok elfCodec := by
  decide +kernel

/-- The fields in the other order, with two blanks between them. -/
theorem allOrNothing_iff_reversed :
    consumeVoids id elfCodec none (ascii "#Fields: b  a" ++ ascii "\n") =
        consumeVoids id elfCodec (some (ascii "#Fields: b  a")) (ascii "\n") ∧
      (AllOrNothing elfCodec (ascii "#Fields: b  a")
          (endComment id elfCodec (ascii "#Fields: b  a") (ascii "\n")).1 ↔
        Honoured elfCodec (ascii "\n") (ascii "#Fields: b  a")) :=
  allOrNothing_iff setConfig_elfConfig (show run step _ [] = some ⟨elfCodec, _⟩ from rfl)
    (by decide +kernel)
    ⟨by decide +kernel, by decide +kernel, by decide +kernel, by decide +kernel⟩ id (ascii "\n")

/-- An unknown name leaves the field in front of it, and throws. -/
theorem not_allOrNothing :
    DirectiveLine elfCodec (ascii "#Fields: b x a") ∧ elfCodec.format = [0, 1] ∧
      (endComment id elfCodec (ascii "#Fields: b x a") (ascii "\n")).1.format = [1] ∧
      elfCodec.fieldsNamed (blankWords ((ascii "#Fields: b x a").drop 8)) = none ∧
      ¬ AllOrNothing elfCodec (ascii "#Fields: b x a")
        (endComment id elfCodec (ascii "#Fields: b x a") (ascii "\n")).1 := by
  have hformat : (endComment id elfCodec (ascii "#Fields: b x a") (ascii "\n")).1.format = [1] := by
    decide +kernel
  have hnamed : elfCodec.fieldsNamed (blankWords ((ascii "#Fields: b x a").drop 8)) = none := by
    decide +kernel
  have hbefore : elfCodec.format = [0, 1] := by decide +kernel
  refine ⟨⟨by decide +kernel, by decide +kernel, by decide +kernel, by decide +kernel⟩, hbefore,
    hformat, hnamed, fun h => ?_⟩
  rw [AllOrNothing, show fieldsElfHeader.length = 8 from rfl, hnamed] at h
  have heq := congrArg LogCodec.format h
  rw [hformat, hbefore] at heq
  exact absurd heq (by decide)

end PionCore.Platform.LogCodec
