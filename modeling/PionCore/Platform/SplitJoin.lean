/-
# Splitting and joining

`JoinTerm` puts a separator between the values of a term, and `SplitTerm` takes each character of
its separator for a separator of its own.  The values come back just if they have none of these
characters.
-/
import PionCore.Lib.UTF8
import PionCore.Lib.Words
import PionCore.Platform.Transform

namespace PionCore.Platform

open PionCore.Lib SortedMultimap
open LogCodec (cString)

namespace Transform

variable {φ δ χ θ ρ : Type*} (lib : TransformLibrary φ δ χ θ ρ)

/-- A separator in a configuration: a text without zero bytes that is not empty. -/
structure SeparatorText where
  text : Bytes
  ne_nil : text ≠ []
  noZero : ∀ b ∈ text, b ≠ 0
  valid : ValidUTF8 text

/-- The values of the term `src` are joined in the term `mid` of a new event, and this is split for
the term `out` of another one. -/
def splitOfJoin (src mid out : Term) (sep : SeparatorText) (eventType : ℕ) (s : Event φ δ χ θ) :
    Event φ δ χ θ :=
  let join : Transform φ δ χ θ ρ := { term := mid, kind := .joinTerm src sep.text false }
  let split : Transform φ δ χ θ ρ := { term := out, kind := .splitTerm mid sep.text }
  (split.transform lib [] eventType (join.transform lib [] eventType s).2.1).2.1

/-- A value that is joined. -/
structure Joinable (v : Bytes) : Prop where
  ne_nil : v ≠ []
  noZero : ∀ b ∈ v, b ≠ 0
  valid : ValidUTF8 v

variable {lib}

/-! ### Assignments -/

/-- A string is inserted as what its type makes of it. -/
lemma assignValue_eq (term : Term) (d : Event φ δ χ θ) {value : Bytes} (hne : value ≠ []) :
    assignValue lib term d value =
      match SetCall.stringValue lib.conv term value with
      | none => (d, .error (.valueAssignment value))
      | some v => (insertEqual term.termRef v d, .ok true) := by
  have happly := SetCall.apply_eq lib.conv (.set term value) d
  have hset : Event.set lib.conv d term value =
      (SetCall.stringValue lib.conv term value).map (d.insert term.termRef) := happly
  rw [assignValue, if_neg hne, hset]
  cases SetCall.stringValue lib.conv term value <;> rfl

/-- What a string is for a term of some type of strings. -/
def textOf (conv : Conversions φ δ χ θ) (term : Term) (value : Bytes) : Option Bytes :=
  match term.termType with
  | .blob | .zblob => some value
  | _ => conv.makeUTF8Blob value

lemma stringValue_string {conv : Conversions φ δ χ θ} {term : Term}
    (h : term.termType.isString = true) (value : Bytes) :
    SetCall.stringValue conv term value = (textOf conv term value).map .blob := by
  rw [SetCall.stringValue, textOf]
  cases htype : term.termType <;> rw [htype] at h <;> first | rfl | cases h

lemma textOf_valid {conv : Conversions φ δ χ θ}
    (hutf8 : ∀ s, ValidUTF8 s → conv.makeUTF8Blob s = some s) (term : Term) {value : Bytes}
    (h : ValidUTF8 value) : textOf conv term value = some value := by
  rw [textOf]
  split
  · rfl
  · rfl
  · exact hutf8 value h

lemma isSome_textOf {conv : Conversions φ δ χ θ}
    (htotal : ∀ s, (conv.makeUTF8Blob s).isSome = true) (term : Term) (value : Bytes) :
    (textOf conv term value).isSome = true := by
  rw [textOf]
  split
  · rfl
  · rfl
  · exact htotal value

/-- Strings of which blobs are made are appended to the values of the term. -/
lemma values_assignValues {term : Term} (h : term.termType.isString = true) {values : List Bytes}
    (hvalues : ∀ v ∈ values, v ≠ [] ∧ (textOf lib.conv term v).isSome = true)
    {d : Event φ δ χ θ} (hd : Sorted d) (any : Bool) :
    Sorted (assignValues lib term d any values).1 ∧
      (assignValues lib term d any values).2.toOption.isSome = true ∧
      SortedMultimap.values term.termRef (assignValues lib term d any values).1 =
        SortedMultimap.values term.termRef d ++
          values.map fun v => .blob ((textOf lib.conv term v).getD []) := by
  induction values generalizing d any with
  | nil => exact ⟨hd, rfl, (List.append_nil _).symm⟩
  | cons v values ih =>
    obtain ⟨⟨hv, hsome⟩, hvalues⟩ := List.forall_mem_cons.1 hvalues
    obtain ⟨b, hb⟩ := Option.isSome_iff_exists.1 hsome
    have hassign : assignValue lib term d v =
        (insertEqual term.termRef (.blob b) d, .ok true) := by
      rw [assignValue_eq term d hv, stringValue_string h, hb]
      rfl
    obtain ⟨hsorted, hok, hrest⟩ := ih hvalues hd.insertEqual (any || true)
    rw [assignValues, hassign]
    refine ⟨hsorted, hok, ?_⟩
    rw [hrest, values_insertEqual_self hd, List.map_cons, hb, List.append_assoc]
    rfl

/-! ### The text that is joined -/

/-- The values with a separator between them. -/
def joinedText (sep : Bytes) : List Bytes → Bytes
  | [] => []
  | v :: vs => v ++ vs.flatMap fun w => sep ++ w

lemma write_blob {term : Term} (h : term.termType.isString = true) {v : Bytes}
    (hv : ∀ b ∈ v, b ≠ 0) :
    write lib term (.blob v : ParameterValue φ δ χ θ) = .ok v := by
  have hc := LogCodec.cString_eq hv
  cases htype : term.termType <;> rw [htype] at h <;>
    first | (simp only [write, htype, hc]; done) | cases h

/-- The loop has the values so far, and goes on with a separator. -/
lemma joined_append {src : Term} (h : src.termType.isString = true) {sep : Bytes}
    {values : List Bytes} (hvalues : ∀ v ∈ values, v ≠ [] ∧ ∀ b ∈ v, b ≠ 0) {result : Bytes}
    (hne : result ≠ []) :
    joined lib src sep false [] result
        (values.map fun v => (.blob v : ParameterValue φ δ χ θ)) =
      .ok (result ++ values.flatMap fun w => sep ++ w) := by
  induction values generalizing result with
  | nil => rw [List.flatMap_nil, List.append_nil]; rfl
  | cons v values ih =>
    obtain ⟨⟨hv, hzero⟩, hvalues⟩ := List.forall_mem_cons.1 hvalues
    rw [List.map_cons, joined, write_blob h hzero]
    simp only [hv, hne, ne_eq, not_false_eq_true, decide_true, List.contains_nil, Bool.not_false,
      Bool.and_self, if_true, if_false, Bool.false_eq_true]
    rw [ih hvalues (by simp [hne]), List.flatMap_cons, List.append_assoc, List.append_assoc,
      List.append_assoc]

lemma joined_eq {src : Term} (h : src.termType.isString = true) {sep : Bytes}
    {values : List Bytes} (hvalues : ∀ v ∈ values, v ≠ [] ∧ ∀ b ∈ v, b ≠ 0) :
    joined lib src sep false [] [] (values.map fun v => (.blob v : ParameterValue φ δ χ θ)) =
      .ok (joinedText sep values) := by
  cases values with
  | nil => rfl
  | cons v values =>
    obtain ⟨⟨hv, hzero⟩, hvalues⟩ := List.forall_mem_cons.1 hvalues
    rw [List.map_cons, joined, write_blob h hzero]
    simp only [hv, ne_eq, not_false_eq_true, decide_true, List.contains_nil, Bool.not_false,
      Bool.and_self, if_true, Bool.false_eq_true, if_false, List.nil_append]
    rw [joined_append h hvalues hv, joinedText]

lemma tokens_eq_parts (sep v : Bytes) : tokens sep v = parts sep.contains v := by
  rw [tokens, parts]
  congr 1
  funext w
  cases w <;> rfl

/-- The tokens of the text are those of the values. -/
lemma tokens_joinedText {sep : Bytes} (hsep : sep ≠ []) (values : List Bytes) :
    tokens sep (joinedText sep values) = values.flatMap (tokens sep) := by
  have hmem : ∀ b ∈ sep, sep.contains b = true := fun b hb => by simpa using hb
  have happend : ∀ s t, tokens sep (s ++ (sep ++ t)) = tokens sep s ++ tokens sep t := by
    intro s t
    obtain ⟨x, rest, rfl⟩ := List.exists_cons_of_ne_nil hsep
    obtain ⟨hx, hrest⟩ := List.forall_mem_cons.1 hmem
    simp only [tokens_eq_parts]
    rw [List.cons_append, parts_append_cons hx, parts_append_left hrest]
  cases values with
  | nil => rw [joinedText, tokens_eq_parts, parts_nil, List.flatMap_nil]
  | cons v values =>
    rw [joinedText, List.flatMap_cons]
    -- the tokens of the first value end at the separator behind it
    induction values generalizing v with
    | nil => rw [List.flatMap_nil, List.flatMap_nil, List.append_nil, List.append_nil]
    | cons w values ih =>
      rw [List.flatMap_cons, List.append_assoc, happend, ih w, List.flatMap_cons]

/-- A value without separators is the only token. -/
lemma tokens_of_forall {sep v : Bytes} (hv : v ≠ []) (h : ∀ b ∈ v, b ∉ sep) :
    tokens sep v = [v] := by
  rw [tokens_eq_parts]
  exact parts_of_forall (fun b hb => by simpa using h b hb) hv

/-! ### Tokens of a value -/

/-- A text with a letter that is no separator has a word. -/
lemma tokens_ne_nil {sep v : Bytes} {b : Byte} (hb : b ∈ v) (hsep : b ∉ sep) :
    tokens sep v ≠ [] := by
  intro hnil
  have hflatten := flatten_parts (p := sep.contains) v
  rw [← tokens_eq_parts, hnil, List.flatten_nil] at hflatten
  have hmem : b ∈ v.filter fun x => ! sep.contains x :=
    List.mem_filter.2 ⟨hb, by simpa using hsep⟩
  rw [← hflatten] at hmem
  exact absurd hmem List.not_mem_nil

/-- A value that has a separator within has two tokens at least. -/
lemma two_le_length_tokens {sep v : Bytes} {x : Byte} (hx : x ∈ v) (hsep : x ∈ sep)
    (hends : ∀ b, b ∈ v.head? ∨ b ∈ v.getLast? → b ∉ sep) : 2 ≤ (tokens sep v).length := by
  obtain ⟨s, t, rfl⟩ := List.append_of_mem hx
  have happend : tokens sep (s ++ x :: t) = tokens sep s ++ tokens sep t := by
    simp only [tokens_eq_parts]
    exact parts_append_cons (by simpa using hsep)
  have hs : tokens sep s ≠ [] := by
    cases s with
    | nil => exact absurd hsep (hends x (Or.inl rfl))
    | cons y s => exact tokens_ne_nil List.mem_cons_self (hends y (Or.inl rfl))
  have ht : tokens sep t ≠ [] := by
    rcases List.eq_nil_or_concat t with rfl | ⟨t, y, rfl⟩
    · exact absurd hsep (hends x (Or.inr (by simp)))
    · refine tokens_ne_nil (b := y) (by simp) (hends y (Or.inr ?_))
      rw [List.concat_eq_append, ← List.cons_append, ← List.append_assoc,
        List.getLast?_concat]
      rfl
  rw [happend, List.length_append]
  have hspos := List.length_pos_iff.2 hs
  have htpos := List.length_pos_iff.2 ht
  omega

lemma length_le_flatMap {f : Bytes → List Bytes} {values : List Bytes}
    (h : ∀ v ∈ values, f v ≠ []) : values.length ≤ (values.flatMap f).length := by
  induction values with
  | nil => exact le_rfl
  | cons v values ih =>
    obtain ⟨hv, h⟩ := List.forall_mem_cons.1 h
    have hpos := List.length_pos_iff.2 hv
    have hrest := ih h
    rw [List.flatMap_cons, List.length_append, List.length_cons]
    omega

/-- As many tokens as values: each value has one. -/
lemma length_eq_one_of_flatMap {f : Bytes → List Bytes} {values : List Bytes}
    (h : ∀ v ∈ values, f v ≠ []) (hlen : (values.flatMap f).length = values.length) :
    ∀ v ∈ values, (f v).length = 1 := by
  induction values with
  | nil => simp
  | cons v values ih =>
    obtain ⟨hv, h⟩ := List.forall_mem_cons.1 h
    have hpos := List.length_pos_iff.2 hv
    have hrest := length_le_flatMap h
    rw [List.flatMap_cons, List.length_append, List.length_cons] at hlen
    -- a second token of `v` would leave too few for the others
    exact List.forall_mem_cons.2 ⟨by omega, ih h (by omega)⟩

/-! ### Both transforms -/

lemma valuesRange_eq {e : Event φ δ χ θ} (h : Sorted e) (termRef : ℕ) :
    Comparison.valuesRange e termRef = SortedMultimap.values termRef e := by
  rw [Comparison.valuesRange, h.range_eq, SortedMultimap.values]

lemma valid_joinedText {sep : Bytes} (hsep : ValidUTF8 sep) {values : List Bytes}
    (h : ∀ v ∈ values, ValidUTF8 v) : ValidUTF8 (joinedText sep values) := by
  cases values with
  | nil => exact ValidUTF8.nil
  | cons v values =>
    obtain ⟨hv, hrest⟩ := List.forall_mem_cons.1 h
    refine hv.append ?_
    clear h hv
    induction values with
    | nil => exact ValidUTF8.nil
    | cons w values ih =>
      obtain ⟨hw, hrest⟩ := List.forall_mem_cons.1 hrest
      rw [List.flatMap_cons]
      exact (hsep.append hw).append (ih hrest)

lemma noZero_joinedText {sep : Bytes} (hsep : ∀ b ∈ sep, b ≠ 0) {values : List Bytes}
    (h : ∀ v ∈ values, ∀ b ∈ v, b ≠ 0) : ∀ b ∈ joinedText sep values, b ≠ 0 := by
  cases values with
  | nil => simp [joinedText]
  | cons v values =>
    obtain ⟨hv, h⟩ := List.forall_mem_cons.1 h
    intro b hb
    rcases List.mem_append.1 hb with hb | hb
    · exact hv b hb
    · obtain ⟨w, hw, hb⟩ := List.mem_flatMap.1 hb
      rcases List.mem_append.1 hb with hb | hb
      · exact hsep b hb
      · exact h w hw b hb

/-- The event with the joined text. -/
lemma transform_join {src mid : Term} (hsrc : src.termType.isString = true)
    (hmid : mid.termType.isString = true) {sep : SeparatorText} {values : List Bytes}
    (hvalues : ∀ v ∈ values, Joinable v) {eventType : ℕ} {s : Event φ δ χ θ}
    (hs : Comparison.valuesRange s src.termRef = values.map .blob)
    (hutf8 : ∀ t, ValidUTF8 t → lib.conv.makeUTF8Blob t = some t) :
    (({ term := mid, kind := .joinTerm src sep.text false } : Transform φ δ χ θ ρ).transform lib []
        eventType s).2.1 =
      if values = [] then [] else [(mid.termRef, .blob (joinedText sep.text values))] := by
  have hjoined : joined lib src sep.text false [] []
      (values.map fun v => (.blob v : ParameterValue φ δ χ θ)) = .ok (joinedText sep.text values) :=
    joined_eq hsrc fun v hv => ⟨(hvalues v hv).ne_nil, (hvalues v hv).noZero⟩
  simp only [transform, hs, hjoined]
  cases values with
  | nil => rfl
  | cons v values =>
    have hne : joinedText sep.text (v :: values) ≠ [] := by
      have hv := (hvalues v List.mem_cons_self).ne_nil
      simp [joinedText, hv]
    have hvalid := valid_joinedText sep.valid fun w hw => (hvalues w hw).valid
    rw [assignValue_eq mid [] hne, stringValue_string hmid, textOf_valid hutf8 mid hvalid,
      if_neg (List.cons_ne_nil v values)]
    rfl

/-- The tokens of all values come out. -/
lemma values_splitOfJoin {src mid out : Term} (hsrc : src.termType.isString = true)
    (hmid : mid.termType.isString = true) (hout : out.termType.isString = true)
    {sep : SeparatorText} {values : List Bytes} (hvalues : ∀ v ∈ values, Joinable v)
    {eventType : ℕ} {s : Event φ δ χ θ}
    (hs : Comparison.valuesRange s src.termRef = values.map .blob)
    (hutf8 : ∀ t, ValidUTF8 t → lib.conv.makeUTF8Blob t = some t)
    (htotal : ∀ t, (lib.conv.makeUTF8Blob t).isSome = true) :
    Comparison.valuesRange (splitOfJoin lib src mid out sep eventType s) out.termRef =
      (values.flatMap (tokens sep.text)).map fun w =>
        .blob ((textOf lib.conv out w).getD []) := by
  rw [splitOfJoin, transform_join hsrc hmid hvalues hs hutf8]
  cases values with
  | nil => rfl
  | cons v values =>
    rw [if_neg (List.cons_ne_nil v values)]
    have hnil : Sorted ([] : Event φ δ χ θ) := List.Pairwise.nil
    have hone : Sorted ([(mid.termRef, .blob (joinedText sep.text (v :: values)))] :
        Event φ δ χ θ) := List.pairwise_singleton _ _
    have hzero := noZero_joinedText sep.noZero fun w hw => (hvalues w hw).noZero
    have hblobs : ∀ w ∈ tokens sep.text (joinedText sep.text (v :: values)),
        w ≠ [] ∧ (textOf lib.conv out w).isSome = true := fun w hw =>
      ⟨by simpa using (List.mem_filter.1 hw).2, isSome_textOf htotal out w⟩
    obtain ⟨hsorted, hok, hassigned⟩ := values_assignValues hout hblobs hnil false
    have hmidvalues : Comparison.valuesRange
        ([(mid.termRef, .blob (joinedText sep.text (v :: values)))] : Event φ δ χ θ)
          mid.termRef = [.blob (joinedText sep.text (v :: values))] := by
      rw [valuesRange_eq hone]
      simp [SortedMultimap.values]
    simp only [transform, hmidvalues, assignEach, write_blob hmid hzero]
    obtain ⟨p, hp⟩ : ∃ p, p = assignValues lib out ([] : Event φ δ χ θ) false
        (tokens sep.text (joinedText sep.text (v :: values))) := ⟨_, rfl⟩
    rw [← hp] at hsorted hok hassigned ⊢
    obtain ⟨d, r⟩ := p
    cases r with
    | error error => cases hok
    | ok any =>
      dsimp only
      rw [valuesRange_eq hsorted, hassigned, tokens_joinedText sep.ne_nil]
      rfl

/-- Splitting what has been joined gives the values back if no value has a character of the
separator; and for values that neither start nor end with one of them, only then. -/
theorem split_join_iff {src mid out : Term} (hsrc : src.termType.isString = true)
    (hmid : mid.termType.isString = true) (hout : out.termType.isString = true)
    (sep : SeparatorText) {values : List Bytes} (hvalues : ∀ v ∈ values, Joinable v)
    (eventType : ℕ) {s : Event φ δ χ θ}
    (hs : Comparison.valuesRange s src.termRef = values.map .blob)
    (hutf8 : ∀ t, ValidUTF8 t → lib.conv.makeUTF8Blob t = some t)
    (htotal : ∀ t, (lib.conv.makeUTF8Blob t).isSome = true) :
    ((∀ v ∈ values, ∀ b ∈ v, b ∉ sep.text) →
      Comparison.valuesRange (splitOfJoin lib src mid out sep eventType s) out.termRef =
        values.map .blob) ∧
    ((∀ v ∈ values, ∀ b, b ∈ v.head? ∨ b ∈ v.getLast? → b ∉ sep.text) →
      (Comparison.valuesRange (splitOfJoin lib src mid out sep eventType s) out.termRef =
          values.map .blob ↔
        ∀ v ∈ values, ∀ b ∈ v, b ∉ sep.text)) := by
  have hresult : Comparison.valuesRange (splitOfJoin lib src mid out sep eventType s) out.termRef =
      (values.flatMap (tokens sep.text)).map fun w => .blob ((textOf lib.conv out w).getD []) :=
    values_splitOfJoin hsrc hmid hout hvalues hs hutf8 htotal
  have hback : (∀ v ∈ values, ∀ b ∈ v, b ∉ sep.text) →
      Comparison.valuesRange (splitOfJoin lib src mid out sep eventType s) out.termRef =
        values.map .blob := by
    intro hnone
    have htokens : values.flatMap (tokens sep.text) = values := by
      rw [List.flatMap_congr fun v hv => tokens_of_forall (hvalues v hv).ne_nil (hnone v hv),
        List.flatMap_singleton']
    rw [hresult, htokens]
    refine List.map_congr_left fun v hv => ?_
    rw [textOf_valid hutf8 out (hvalues v hv).valid, Option.getD_some]
  refine ⟨hback, fun hends => ⟨fun hsame v hv b hb hsep => ?_, hback⟩⟩
  have hlen := congrArg List.length (hresult.symm.trans hsame)
  rw [List.length_map, List.length_map] at hlen
  have hpos : ∀ w ∈ values, tokens sep.text w ≠ [] := by
    intro w hw
    obtain ⟨y, rest, heq⟩ := List.exists_cons_of_ne_nil (hvalues w hw).ne_nil
    exact tokens_ne_nil (b := y) (by rw [heq]; exact List.mem_cons_self)
      (hends w hw y (Or.inl (by rw [heq]; rfl)))
  -- the value has more than one token
  have htwo := two_le_length_tokens hb hsep (hends v hv)
  have hone := length_eq_one_of_flatMap hpos hlen v hv
  omega

/-! ### Two separators -/

/-- A library whose blobs are the strings as they are. -/
def plainLibrary : TransformLibrary Unit Unit Unit Unit Bytes where
  toComparisonLibrary := Comparison.asciiLibrary
  ofFloat _ := []
  ofDouble _ := []
  ofLongDouble _ := []
  ofDateTime format _ := format
  isEmptyRegex regex := regex = []
  replaceRegex _ _ _ := none

/-- A comma and a blank. -/
def commaBlank : SeparatorText where
  text := ascii ", "
  ne_nil := by decide
  noZero := by decide +kernel
  valid := ValidUTF8.of_ascii (by decide +kernel)

def stringTerm (termRef : ℕ) : Term := { termRef := termRef, termType := .string }

lemma joinable_ascii {v : Bytes} (hne : v ≠ []) (h : ∀ b ∈ v, b ≠ 0 ∧ b < 128) : Joinable v where
  ne_nil := hne
  noZero b hb := (h b hb).1
  valid := ValidUTF8.of_ascii fun b hb => (h b hb).2

theorem split_join_iff_two :
    Comparison.valuesRange (splitOfJoin plainLibrary (stringTerm 1) (stringTerm 2) (stringTerm 3)
        commaBlank 7 [(1, .blob (ascii "a")), (1, .blob (ascii "b-c"))]) 3 =
      [.blob (ascii "a"), .blob (ascii "b-c")] := by
  have hjoinable : ∀ v ∈ [ascii "a", ascii "b-c"], Joinable v :=
    List.forall_mem_cons.2 ⟨joinable_ascii (by decide) (by decide +kernel),
      List.forall_mem_singleton.2 (joinable_ascii (by decide) (by decide +kernel))⟩
  refine (@split_join_iff _ _ _ _ _ plainLibrary (stringTerm 1) (stringTerm 2) (stringTerm 3)
    rfl rfl rfl commaBlank _ hjoinable 7 _ rfl (fun _ _ => rfl) (fun _ => rfl)).1 ?_
  decide +kernel

/-- A value with a comma, but without the separator, is split: there are three values. -/
theorem not_split_join :
    ¬ ∀ (sep : SeparatorText) (values : List Bytes) (s : Event Unit Unit Unit Unit),
      (∀ v ∈ values, Joinable v ∧ ¬ sep.text <:+: v ∧
        ∀ b, b ∈ v.head? ∨ b ∈ v.getLast? → b ∉ sep.text) →
      Comparison.valuesRange s 1 = values.map .blob →
      Comparison.valuesRange (splitOfJoin plainLibrary (stringTerm 1) (stringTerm 2)
        (stringTerm 3) sep 7 s) 3 = values.map .blob := by
  intro hall
  have h := hall commaBlank [ascii "a,b", ascii "c"]
    [(1, .blob (ascii "a,b")), (1, .blob (ascii "c"))] ?_ rfl
  · have hlen := congrArg List.length h
    exact absurd hlen (by decide +kernel)
  · refine List.forall_mem_cons.2 ⟨⟨joinable_ascii (by decide) (by decide +kernel), by decide, ?_⟩,
      List.forall_mem_singleton.2
        ⟨joinable_ascii (by decide) (by decide +kernel), by decide, ?_⟩⟩
    · rintro b (hb | hb) <;> obtain rfl := Option.some.inj hb <;> decide
    · rintro b (hb | hb) <;> obtain rfl := Option.some.inj hb <;> decide

end Transform

end PionCore.Platform
