/-
# Opening a saved vocabulary

Behind every run of calls the document has one element for each term, which says what the memory
says as far as an element can: a size for a `char` only, which is not zero, and text that a
document may have.
-/
import Mathlib.Data.List.TakeWhile
import PionCore.Lib.Runs
import PionCore.Platform.VocabularyConfig

namespace PionCore.Platform

open PionCore.Lib Vocabulary

/-! ### Types, sizes and texts -/

lemma mem_dataTypes (type : DataType) : type ∈ dataTypes := by
  cases type <;> decide

lemma parseDataType_name (type : DataType) : parseDataType type.name = some type := by
  have h : ∀ type ∈ dataTypes, parseDataType type.name = some type := by decide +kernel
  exact h type (mem_dataTypes type)

lemma name_ne_nil (type : DataType) : type.name ≠ [] := by
  have h : ∀ type ∈ dataTypes, type.name ≠ [] := by decide +kernel
  exact h type (mem_dataTypes type)

lemma isXMLText_name (type : DataType) : isXMLText type.name = true := by
  have h : ∀ type ∈ dataTypes, isXMLText type.name = true := by decide +kernel
  exact h type (mem_dataTypes type)

lemma isXMLAscii_of_isDigit {c : Byte} (h : isDigit c = true) : isXMLAscii c = true := by
  simp only [isDigit, decide_eq_true_eq] at h
  simp only [isXMLAscii, decide_eq_true_eq]
  exact Or.inl ⟨UInt8.le_trans (by decide) h.1, UInt8.le_trans h.2 (by decide)⟩

lemma isXMLText_numeral (n : ℕ) : isXMLText (numeral 10 n) = true :=
  isXMLText_of_ascii fun _ hc => isXMLAscii_of_isDigit (isDigit_of_mem_numeral hc)

lemma strtoul_numeral {n : ℕ} (hn : n < 2 ^ 64) : strtoul (numeral 10 n) = n := by
  obtain ⟨c, ds, hds⟩ := List.exists_cons_of_ne_nil (numeral_ne_nil 10 n)
  have hdigits : ∀ d ∈ numeral 10 n, isDigit d = true := fun d hd => isDigit_of_mem_numeral hd
  have hc : isDigit c = true := hdigits c (by simp [hds])
  have hspace : (numeral 10 n).dropWhile isSpace = c :: ds := by
    rw [hds, List.dropWhile_cons_of_neg]
    simp [isSpace_of_isDigit hc]
  have htake : (c :: ds).takeWhile isDigit = numeral 10 n := by
    rw [← hds]
    exact List.takeWhile_eq_self_iff.2 hdigits
  have hread := readNumeral_numeral (by decide : 1 < 10) (by decide) n
  have hminus : c ≠ 45 := by
    rintro rfl
    exact absurd hc (by decide)
  have hplus : c ≠ 43 := by
    rintro rfl
    exact absurd hc (by decide)
  rw [strtoul, hspace]
  dsimp only
  rw [if_neg hminus, if_neg hplus, strtoul.value, htake, hread, if_neg (not_le.2 hn),
    if_neg (by simp)]

lemma charSize_numeral {n : ℕ} (hn : n < 2 ^ 64) (hne : n ≠ 0) :
    charSize (some (numeral 10 n)) = n := by
  rw [charSize, strtoul_numeral hn, if_pos ⟨numeral_ne_nil 10 n, hne⟩]

lemma charSize_ne_zero (size : Option Bytes) : charSize size ≠ 0 := by
  cases size with
  | none => exact one_ne_zero
  | some s =>
    rw [charSize]
    split_ifs with h
    · exact h.2
    · exact one_ne_zero

lemma cString_of_ne_zero {s : Bytes} (h : ∀ c ∈ s, c ≠ 0) : LogCodec.cString s = s :=
  List.takeWhile_eq_self_iff.2 fun c hc => by simpa using h c hc

lemma ne_zero_of_mem_cString {s : Bytes} {c : Byte} (h : c ∈ LogCodec.cString s) : c ≠ 0 := by
  simpa using List.mem_takeWhile_imp h

lemma cString_of_isXMLText {s : Bytes} (h : isXMLText s = true) : LogCodec.cString s = s :=
  cString_of_ne_zero (ne_zero_of_isXMLText h)

namespace VocabularyConfig

/-! ### What an element says -/

/-- The `Type` element says what the definition says, as far as it can. -/
structure TypeHolds (d : Definition) (type : TypeNode) : Prop where
  content : isXMLText type.content = true
  parsed : type.content ≠ [] ∧ parseDataType type.content = some d.1
  readable : ∀ s ∈ type.size, isXMLText s = true
  size : d.1 = .char → d.2.1 ≠ 0 → charSize type.size = d.2.1
  format : isXMLText d.2.2.1 = true → type.format.getD [] = d.2.2.1

/-- The same of an element; a term without a `Type` has the type `null`. -/
structure NodeHolds (d : Definition) (node : TermNode) : Prop where
  untyped : node.type = none → d.1 = .null
  typed : ∀ type ∈ node.type, TypeHolds d type
  comment : isXMLText d.2.2.2 = true → node.comment.getD [] = d.2.2.2

variable {c d : VocabularyConfig} {node : TermNode} {t : Term}

lemma format_getD (format : Bytes) (h : isXMLText format = true) :
    (if format ≠ [] then some (LogCodec.cString format) else none).getD [] = format := by
  split_ifs with hne
  · exact cString_of_isXMLText h
  · exact (not_not.1 hne).symm

lemma typeHolds_addNew (hsize : t.termSize < 2 ^ 64) :
    TypeHolds (added t) (addNewTermTypeConfig t) where
  content := isXMLText_name t.termType
  parsed := ⟨name_ne_nil t.termType, parseDataType_name t.termType⟩
  readable := by
    intro s hs
    rw [addNewTermTypeConfig] at hs
    dsimp only at hs
    split_ifs at hs
    · obtain rfl := Option.mem_some.1 hs
      decide
    · obtain rfl := Option.mem_some.1 hs
      exact isXMLText_numeral _
    · cases hs
  size := by
    intro hchar _
    have htype : t.termType = .char := hchar
    rw [addNewTermTypeConfig, added, Vocabulary.sizeOf]
    dsimp only
    rw [if_pos (Or.inr htype)]
    by_cases hzero : t.termSize = 0
    · rw [if_pos ⟨hzero, htype⟩, if_pos ⟨htype, hzero⟩]
      decide
    · rw [if_neg fun h => hzero h.1, if_neg fun h => hzero h.2]
      exact charSize_numeral hsize hzero
  format := fun h => format_getD t.termFormat h

lemma nodeHolds_new (hsize : t.termSize < 2 ^ 64) : NodeHolds (added t) (newTermNode t) where
  untyped := fun h => by cases h
  typed := fun type h => Option.mem_some.1 h ▸ typeHolds_addNew hsize
  comment := fun h => format_getD t.termComment h

lemma redefined_fst (old : Option Definition) : (redefined t old).1 = t.termType := by
  rw [redefined]
  split_ifs <;> rfl

lemma redefined_format (old : Option Definition) :
    (redefined t old).2.2 = (t.termFormat, t.termComment) := by
  rw [redefined]
  split_ifs <;> rfl

/-- A size that is not zero is the one that is asked for, or the default size. -/
lemma redefined_size (old : Option Definition) (hchar : t.termType = .char)
    (hne : (redefined t old).2.1 ≠ 0) :
    (redefined t old).2.1 = if t.termSize = 0 then 1 else t.termSize := by
  rw [redefined] at hne ⊢
  by_cases hzero : t.termSize = 0
  · rw [if_pos hzero]
    split_ifs at hne ⊢
    · exact absurd hzero hne
    · rw [added, Vocabulary.sizeOf, if_pos ⟨hchar, hzero⟩]
  · rw [if_neg hzero]
    split_ifs
    · rfl
    · rw [added, Vocabulary.sizeOf, if_neg fun h => hzero h.2]

/-- An attribute of the changed element is there if and only if it has a value. -/
lemma updateTypeNode_some (type : TypeNode) (t : Term) :
    updateTypeNode (some type) t = some
      { content := t.termType.name
        size := if t.termSize = 0 then none else some (numeral 10 t.termSize)
        format := if t.termFormat ≠ [] then some (LogCodec.cString t.termFormat) else none } := by
  obtain ⟨content, size, format⟩ := type
  cases size <;> cases format <;> simp [updateTypeNode]

lemma typeHolds_update {type : TypeNode} (old : Option Definition) (hsize : t.termSize < 2 ^ 64) :
    ∀ new ∈ updateTypeNode (some type) t, TypeHolds (redefined t old) new := by
  intro new hnew
  rw [updateTypeNode_some] at hnew
  obtain rfl := Option.mem_some.1 hnew
  refine ⟨isXMLText_name _, ⟨name_ne_nil _, ?_⟩, ?_, ?_, ?_⟩
  · rw [redefined_fst]
    exact parseDataType_name _
  · intro s hs
    dsimp only at hs
    split_ifs at hs
    · cases hs
    · obtain rfl := Option.mem_some.1 hs
      exact isXMLText_numeral _
  · intro hchar hne
    rw [redefined_fst] at hchar
    rw [redefined_size old hchar hne]
    by_cases hzero : t.termSize = 0
    · -- without the attribute, the size of a `char` is one
      rw [if_pos hzero, if_pos hzero]
      rfl
    · rw [if_neg hzero, if_neg hzero]
      exact charSize_numeral hsize hzero
  · intro h
    rw [redefined_format] at h ⊢
    exact format_getD t.termFormat h

lemma nodeHolds_update {old : Definition} (h : NodeHolds old node) (hsize : t.termSize < 2 ^ 64) :
    NodeHolds (redefined t (some old)) (updateTermNode node t) where
  untyped := by
    intro hnone
    rw [redefined_fst]
    cases htype : node.type with
    | none =>
      simp only [updateTermNode, updateTypeNode, htype] at hnone
      by_contra hne
      simp [hne] at hnone
    | some type => simp [updateTermNode, updateTypeNode, htype] at hnone
  typed := by
    intro new hnew
    rw [updateTermNode] at hnew
    dsimp only at hnew
    cases htype : node.type with
    | none =>
      rw [htype, updateTypeNode] at hnew
      split_ifs at hnew with hnull
      · obtain rfl := Option.mem_some.1 hnew
        -- the term had the type `null`, so that it is added
        have hold : Option.map Prod.fst (some old) ≠ some t.termType := by
          rw [Option.map_some, h.untyped htype]
          exact fun heq => hnull (Option.some.inj heq).symm
        rw [redefined, if_neg hold]
        exact typeHolds_addNew hsize
      · cases hnew
    | some type =>
      rw [htype] at hnew
      exact typeHolds_update (some old) hsize new hnew
  comment := by
    intro htext
    rw [redefined_format] at htext ⊢
    rw [updateTermNode]
    cases node.comment with
    | none => exact format_getD t.termComment htext
    | some s => exact xmlUnescape_xmlEncode htext

/-! ### Memory and document -/

/-- There is one element for each term, which says what the term's definition says. -/
structure Aligned (c : VocabularyConfig) : Prop where
  holds : ∀ node ∈ c.nodes, ∃ termId d, node.id = some termId ∧ termId ≠ [] ∧
    c.vocabulary.definition termId = some d ∧ NodeHolds d node
  nodup : (c.nodes.map TermNode.id).Nodup
  live : ∀ termId, (c.vocabulary.definition termId).isSome → ∃ node ∈ c.nodes, node.id = some termId

/-- No identifier has a zero byte, behind which the document would not have it. -/
def NoZero (c : VocabularyConfig) : Prop :=
  ∀ termId, (c.vocabulary.definition termId).isSome → ∀ b ∈ termId, b ≠ 0

/-- What holds behind every run of calls. -/
structure Invariant (c : VocabularyConfig) : Prop where
  indexed : Indexed c.vocabulary
  ids : ∀ node ∈ c.nodes, ∀ termId ∈ node.id, ∀ b ∈ termId, b ≠ 0
  aligned : NoZero c → Aligned c

/-- The size of a term fits into its type. -/
def FitsSize : Edit → Prop
  | .addTerm t | .updateTerm t => t.termSize < 2 ^ 64
  | .removeTerm _ => True

lemma Aligned.definition_of_mem (h : Aligned c) {termId : Bytes} (hmem : node ∈ c.nodes)
    (hid : node.id = some termId) : ∃ d, c.vocabulary.definition termId = some d ∧
      NodeHolds d node := by
  obtain ⟨termId', d, hid', -, hd, hnode⟩ := h.holds node hmem
  obtain rfl := Option.some.inj (hid'.symm.trans hid)
  exact ⟨d, hd, hnode⟩

/-- The element that is found is the only one with its identifier. -/
lemma findTermNode_some {nodes : List TermNode} {termId : Bytes} {i : ℕ}
    (h : findTermNode nodes termId = some i) :
    ∃ node, nodes[i]? = some node ∧ node.id = some termId := by
  obtain ⟨hlt, hid, -⟩ := List.findIdx?_eq_some_iff_getElem.1 h
  exact ⟨nodes[i], List.getElem?_eq_getElem hlt, by simpa using hid⟩

lemma Aligned.index_unique (h : Aligned c) {i j : ℕ} {node node' : TermNode} {termId : Bytes}
    (hi : c.nodes[i]? = some node) (hid : node.id = some termId) (hj : c.nodes[j]? = some node')
    (hid' : node'.id = some termId) : i = j := by
  have hfst : (c.nodes.map TermNode.id)[i]? = some (some termId) := by
    rw [List.getElem?_map, hi, Option.map_some, hid]
  have hsnd : (c.nodes.map TermNode.id)[j]? = some (some termId) := by
    rw [List.getElem?_map, hj, Option.map_some, hid']
  have hlt := (List.getElem?_eq_some_iff.1 hfst).1
  exact (List.getElem?_inj hlt h.nodup).1 (hfst.trans hsnd.symm)

/-- The elements behind `addTerm`. -/
lemma Aligned.addTerm (h : Aligned c) (hc : Indexed c.vocabulary)
    (hnone : c.vocabulary.thrown (.addTerm t) = none) (hsize : t.termSize < 2 ^ 64)
    (hzero : ∀ b ∈ t.termId, b ≠ 0) :
    Aligned { c with
      vocabulary := c.vocabulary.edit (.addTerm t), nodes := c.nodes ++ [newTermNode t] } := by
  obtain ⟨hid, hnew⟩ := (thrown_eq_none hc).1 hnone
  have hdef := definition_edit hc hnone
  have hother : ∀ node ∈ c.nodes, node.id ≠ some t.termId := by
    intro node hmem heq
    obtain ⟨d, hd, -⟩ := h.definition_of_mem hmem heq
    rw [definition_eq_none.2 hnew] at hd
    cases hd
  have hnewId : (newTermNode t).id = some t.termId := congrArg some (cString_of_ne_zero hzero)
  refine ⟨?_, ?_, ?_⟩
  · intro node hmem
    dsimp only
    rw [hdef]
    rcases List.mem_append.1 hmem with hmem | hmem
    · obtain ⟨termId, d, hid', hne, hd, hnode⟩ := h.holds node hmem
      have hterm : termId ≠ t.termId := fun heq => hother node hmem (heq ▸ hid')
      exact ⟨termId, d, hid', hne, (Function.update_of_ne hterm ..).trans hd, hnode⟩
    · obtain rfl := List.mem_singleton.1 hmem
      exact ⟨t.termId, added t, hnewId, hid, Function.update_self .., nodeHolds_new hsize⟩
  · have hfresh : some t.termId ∉ c.nodes.map TermNode.id := by
      rintro hmem
      obtain ⟨node, hnode, heq⟩ := List.mem_map.1 hmem
      exact hother node hnode heq
    rw [List.map_append, List.map_singleton, hnewId]
    exact List.nodup_append_comm.1 (List.nodup_cons.2 ⟨hfresh, h.nodup⟩)
  · intro termId hlive
    dsimp only at hlive
    rw [hdef] at hlive
    by_cases hterm : termId = t.termId
    · exact ⟨newTermNode t, List.mem_append_right _ List.mem_cons_self, hterm ▸ hnewId⟩
    · rw [definedBy, Function.update_of_ne hterm] at hlive
      obtain ⟨node, hmem, hid'⟩ := h.live termId hlive
      exact ⟨node, List.mem_append_left _ hmem, hid'⟩

/-- The elements behind `updateTerm`. -/
lemma Aligned.updateTerm (h : Aligned c) (hc : Indexed c.vocabulary)
    (hnone : c.vocabulary.thrown (.updateTerm t) = none) (hsize : t.termSize < 2 ^ 64) {i : ℕ}
    (hfind : findTermNode c.nodes t.termId = some i) :
    Aligned { c with
      vocabulary := c.vocabulary.edit (.updateTerm t)
      nodes := c.nodes.modify i fun node => updateTermNode node t } := by
  have hdef := definition_edit hc hnone
  obtain ⟨found, hi, hfound⟩ := findTermNode_some hfind
  have hids : (c.nodes.modify i fun node => updateTermNode node t).map TermNode.id =
      c.nodes.map TermNode.id := by
    refine List.ext_getElem? fun j => ?_
    rw [List.getElem?_map, List.getElem?_map, List.getElem?_modify]
    cases c.nodes[j]? with
    | none => rfl
    | some node =>
      by_cases hij : i = j <;> simp [hij, updateTermNode]
  refine ⟨?_, by rw [hids]; exact h.nodup, ?_⟩
  · intro node hmem
    dsimp only
    rw [hdef]
    obtain ⟨j, hj⟩ := List.getElem?_of_mem hmem
    rw [List.getElem?_modify] at hj
    obtain ⟨old, hold, rfl⟩ := Option.map_eq_some_iff.1 hj
    by_cases hij : i = j
    · -- the element that has been changed
      subst hij
      obtain rfl := Option.some.inj (hi.symm.trans hold)
      obtain ⟨d, hd, hnode⟩ := h.definition_of_mem (List.mem_of_getElem? hi) hfound
      have hne := (h.holds found (List.mem_of_getElem? hi))
      obtain ⟨termId, -, hid, hne, -⟩ := hne
      obtain rfl := Option.some.inj (hid.symm.trans hfound)
      rw [if_pos rfl]
      refine ⟨t.termId, redefined t (some d), hfound, hne, ?_, nodeHolds_update hnode hsize⟩
      rw [definedBy, Function.update_self, hd]
    · rw [if_neg hij]
      obtain ⟨termId, d, hid, hne, hd, hnode⟩ := h.holds old (List.mem_of_getElem? hold)
      refine ⟨termId, d, hid, hne, ?_, hnode⟩
      rw [definedBy, Function.update_of_ne, hd]
      rintro rfl
      exact hij (h.index_unique hi hfound hold hid)
  · intro termId hlive
    dsimp only at hlive
    rw [hdef] at hlive
    have hold : (c.vocabulary.definition termId).isSome := by
      by_cases hterm : termId = t.termId
      · subst hterm
        obtain ⟨d, hd, -⟩ := h.definition_of_mem (List.mem_of_getElem? hi) hfound
        rw [hd]
        rfl
      · rwa [definedBy, Function.update_of_ne hterm] at hlive
    obtain ⟨node, hmem, hid⟩ := h.live termId hold
    have hmem' : some termId ∈ (c.nodes.modify i fun node => updateTermNode node t).map
        TermNode.id := hids ▸ List.mem_map.2 ⟨node, hmem, hid⟩
    obtain ⟨new, hnew, hid'⟩ := List.mem_map.1 hmem'
    exact ⟨new, hnew, hid'⟩

/-- The elements behind `removeTerm`. -/
lemma Aligned.removeTerm (h : Aligned c) (hc : Indexed c.vocabulary) {termId : Bytes}
    (hnone : c.vocabulary.thrown (.removeTerm termId) = none) {i : ℕ}
    (hfind : findTermNode c.nodes termId = some i) :
    Aligned { c with
      vocabulary := c.vocabulary.edit (.removeTerm termId), nodes := c.nodes.eraseIdx i } := by
  have hdef := definition_edit hc hnone
  obtain ⟨found, hi, hfound⟩ := findTermNode_some hfind
  refine ⟨?_, (List.eraseIdx_sublist ..).map _ |>.nodup h.nodup, ?_⟩
  · intro node hmem
    obtain ⟨j, hji, hj⟩ := List.mem_eraseIdx_iff_getElem?.1 hmem
    obtain ⟨id, d, hid, hne, hd, hnode⟩ := h.holds node (List.mem_of_getElem? hj)
    refine ⟨id, d, hid, hne, ?_, hnode⟩
    dsimp only
    rw [hdef, definedBy, Function.update_of_ne, hd]
    rintro rfl
    exact hji (h.index_unique hj hid hi hfound)
  · intro id hlive
    dsimp only at hlive
    rw [hdef] at hlive
    have hterm : id ≠ termId := by
      rintro rfl
      rw [definedBy, Function.update_self] at hlive
      cases hlive
    rw [definedBy, Function.update_of_ne hterm] at hlive
    obtain ⟨node, hmem, hid⟩ := h.live id hlive
    obtain ⟨j, hj⟩ := List.getElem?_of_mem hmem
    refine ⟨node, List.mem_eraseIdx_iff_getElem?.2 ⟨j, ?_, hj⟩, hid⟩
    rintro rfl
    obtain rfl := Option.some.inj (hi.symm.trans hj)
    exact hterm (Option.some.inj (hid.symm.trans hfound))

/-- A definition is not lost when another one is made. -/
lemma isSome_update {f : Bytes → Option Definition} {termId k : Bytes} {t : Definition}
    (h : (f termId).isSome) : (Function.update f k (some t) termId).isSome := by
  by_cases hterm : termId = k
  · rw [hterm, Function.update_self]
    rfl
  · rw [Function.update_of_ne hterm]
    exact h

/-- The identifiers that are found behind a call are those of before, and the new one. -/
lemma NoZero.of_edit (hc : Invariant c) {slots slots' : List Vocabulary} {e : Edit}
    (h : VocabularyConfig.edit slots c e = .ok (slots', d)) (hd : NoZero d) : NoZero c := by
  obtain ⟨hnone, -, nodes, hnodes, rfl⟩ := edit_ok h
  have hdef := definition_edit hc.indexed hnone
  intro termId hlive
  by_cases hkept : ((definedBy c.vocabulary.definition e) termId).isSome
  · exact hd termId (by rw [hdef]; exact hkept)
  · cases e with
    | addTerm t => exact absurd (isSome_update hlive) hkept
    | updateTerm t => exact absurd (isSome_update hlive) hkept
    | removeTerm removed =>
      rw [definedBy] at hkept
      by_cases hterm : termId = removed
      · -- the element of the removed term has been found by its identifier
        subst hterm
        obtain ⟨i, hfind, -⟩ := Option.map_eq_some_iff.1 hnodes
        obtain ⟨node, hi, hid⟩ := findTermNode_some hfind
        exact hc.ids node (List.mem_of_getElem? hi) termId hid
      · rw [Function.update_of_ne hterm] at hkept
        exact absurd hlive hkept

lemma Invariant.edit (hc : Invariant c) {slots slots' : List Vocabulary} {e : Edit}
    (hsize : FitsSize e) (h : VocabularyConfig.edit slots c e = .ok (slots', d)) :
    Invariant d := by
  have hback := NoZero.of_edit hc h
  obtain ⟨hnone, -, nodes, hnodes, rfl⟩ := edit_ok h
  refine ⟨hc.indexed.edit e, ?_, ?_⟩
  · cases e with
    | addTerm t =>
      obtain rfl := Option.some.inj hnodes
      intro node hmem termId hid
      rcases List.mem_append.1 hmem with hmem | hmem
      · exact hc.ids node hmem termId hid
      · obtain rfl := List.mem_singleton.1 hmem
        obtain rfl := Option.some.inj hid
        exact fun b hb => ne_zero_of_mem_cString hb
    | updateTerm t =>
      obtain ⟨i, -, rfl⟩ := Option.map_eq_some_iff.1 hnodes
      intro node hmem termId hid
      obtain ⟨j, hj⟩ := List.getElem?_of_mem hmem
      rw [List.getElem?_modify] at hj
      obtain ⟨old, hold, rfl⟩ := Option.map_eq_some_iff.1 hj
      have hsame : (if i = j then updateTermNode old t else old).id = old.id := by
        split_ifs <;> rfl
      exact hc.ids old (List.mem_of_getElem? hold) termId (hsame ▸ hid)
    | removeTerm termId =>
      obtain ⟨i, -, rfl⟩ := Option.map_eq_some_iff.1 hnodes
      exact fun node hmem => hc.ids node (List.mem_of_mem_eraseIdx hmem)
  · intro hzero
    have haligned := hc.aligned (hback hzero)
    cases e with
    | addTerm t =>
      obtain rfl := Option.some.inj hnodes
      refine haligned.addTerm hc.indexed hnone hsize (hzero t.termId ?_)
      dsimp only
      rw [definition_edit hc.indexed hnone, definedBy, Function.update_self]
      rfl
    | updateTerm t =>
      obtain ⟨i, hfind, rfl⟩ := Option.map_eq_some_iff.1 hnodes
      exact haligned.updateTerm hc.indexed hnone hsize hfind
    | removeTerm termId =>
      obtain ⟨i, hfind, rfl⟩ := Option.map_eq_some_iff.1 hnodes
      exact haligned.removeTerm hc.indexed hnone hfind

/-! ### Opening the document -/

lemma termId_of_parseTermConfig {termId : Bytes} (h : parseTermConfig termId node = .ok t) :
    t.termId = termId := by
  rw [parseTermConfig] at h
  split at h
  · exact (Except.ok.inj h) ▸ rfl
  · split_ifs at h
    split at h
    · cases h
    · exact (Except.ok.inj h) ▸ rfl

/-- The elements are parsed and added one after the other. -/
lemma loadTerms_cons {v w : Vocabulary} {nodes : List TermNode} :
    loadTerms v (node :: nodes) = .ok w ↔ ∃ t, node.id = some t.termId ∧ t.termId ≠ [] ∧
      parseTermConfig t.termId node = .ok t ∧ v.findUri t.termId = none ∧
      loadTerms (v.push t) nodes = .ok w := by
  constructor
  · intro h
    rw [loadTerms] at h
    split_ifs at h with hid
    cases hparse : parseTermConfig (node.id.getD []) node with
    | error x => simp [hparse] at h
    | ok t =>
      have hterm := termId_of_parseTermConfig hparse
      simp only [hparse] at h
      cases hadd : v.addTerm t with
      | error x => simp [hadd] at h
      | ok v' =>
        simp only [hadd] at h
        obtain ⟨hne, hnew, rfl⟩ := addTerm_eq_ok.1 hadd
        refine ⟨t, ?_, hne, hterm ▸ hparse, hnew, h⟩
        cases hnode : node.id with
        | none => exact absurd (by rw [hnode]; rfl) hid
        | some termId => rw [hterm, hnode, Option.getD_some]
  · rintro ⟨t, hnode, hne, hparse, hnew, h⟩
    have hid : node.id.getD [] = t.termId := by rw [hnode, Option.getD_some]
    rw [loadTerms, hid, if_neg hne, hparse]
    simp only [addTerm_ok hne hnew]
    exact h

/-- What has been loaded. -/
structure Loaded (v : Vocabulary) (nodes : List TermNode) (w : Vocabulary) : Prop where
  indexed : Indexed w
  nodup : (nodes.map TermNode.id).Nodup
  parsed : ∀ node ∈ nodes, ∃ t, node.id = some t.termId ∧ t.termId ≠ [] ∧
    parseTermConfig t.termId node = .ok t ∧ v.definition t.termId = none ∧
    w.definition t.termId = some (added t)
  other : ∀ termId, some termId ∉ nodes.map TermNode.id → w.definition termId = v.definition termId

lemma loadTerms_loaded {v w : Vocabulary} {nodes : List TermNode} (hv : Indexed v)
    (h : loadTerms v nodes = .ok w) : Loaded v nodes w := by
  induction nodes generalizing v with
  | nil =>
    obtain rfl := Except.ok.inj h
    exact ⟨hv, List.nodup_nil, by simp, fun _ _ => rfl⟩
  | cons node nodes ih =>
    obtain ⟨t, hnode, hne, hparse, hnew, hrest⟩ := loadTerms_cons.1 h
    have hl := ih (hv.push hne hnew) hrest
    have hpush := definition_push hv.toSound t
    have hfresh : some t.termId ∉ nodes.map TermNode.id := by
      intro hmem
      obtain ⟨node', hmem', hid⟩ := List.mem_map.1 hmem
      obtain ⟨u, hu, -, -, hnone, -⟩ := hl.parsed node' hmem'
      have hsame : u.termId = t.termId := Option.some.inj (hu.symm.trans hid)
      rw [hpush, hsame, Function.update_self] at hnone
      cases hnone
    refine ⟨hl.indexed, ?_, ?_, ?_⟩
    · rw [List.map_cons, hnode]
      exact List.nodup_cons.2 ⟨hfresh, hl.nodup⟩
    · intro node' hmem
      rcases List.mem_cons.1 hmem with rfl | hmem
      · refine ⟨t, hnode, hne, hparse, definition_eq_none.2 hnew, ?_⟩
        rw [hl.other t.termId hfresh, hpush, Function.update_self]
      · obtain ⟨u, hu, hune, huparse, hnone, hdef⟩ := hl.parsed node' hmem
        refine ⟨u, hu, hune, huparse, ?_, hdef⟩
        rw [hpush] at hnone
        by_cases hsame : u.termId = t.termId
        · rw [hsame, Function.update_self] at hnone
          cases hnone
        · rwa [Function.update_of_ne hsame] at hnone
    · intro termId hmem
      rw [List.map_cons, hnode, List.mem_cons, not_or] at hmem
      rw [hl.other termId hmem.2, hpush, Function.update_of_ne]
      exact fun heq => hmem.1 (congrArg some heq)

/-- Elements with different identifiers that can be parsed are loaded. -/
lemma loadTerms_ok {v : Vocabulary} {nodes : List TermNode} (hv : Indexed v)
    (hnodup : (nodes.map TermNode.id).Nodup)
    (h : ∀ node ∈ nodes, ∃ t, node.id = some t.termId ∧ t.termId ≠ [] ∧
      parseTermConfig t.termId node = .ok t ∧ v.findUri t.termId = none) :
    ∃ w, loadTerms v nodes = .ok w := by
  induction nodes generalizing v with
  | nil => exact ⟨v, rfl⟩
  | cons node nodes ih =>
    obtain ⟨t, hnode, hne, hparse, hnew⟩ := h node List.mem_cons_self
    rw [List.map_cons, List.nodup_cons] at hnodup
    obtain ⟨w, hw⟩ := ih (hv.push hne hnew) hnodup.2 (by
      intro node' hmem
      obtain ⟨u, hu, hune, huparse, hunew⟩ := h node' (List.mem_cons_of_mem _ hmem)
      refine ⟨u, hu, hune, huparse, ?_⟩
      rw [findUri_push, if_neg, hunew]
      intro heq
      exact hnodup.1 (List.mem_map.2 ⟨node', hmem, by rw [hu, hnode, heq]⟩))
    exact ⟨w, loadTerms_cons.2 ⟨t, hnode, hne, hparse, hnew, hw⟩⟩

/-! ### What the document keeps -/

/-- Opening the saved document gives the same terms. -/
def Persists (c : VocabularyConfig) : Prop :=
  ∃ d, openConfigFile c.nodes c.isLocked = .ok d ∧
    ∀ termId, d.vocabulary.definition termId = c.vocabulary.definition termId

/-- A term that the document can keep: its texts may be in a document, only a `char` has a size,
which is not zero, and without a `Type` element there is no format. -/
structure Storable (c : VocabularyConfig) (termId : Bytes) (d : Definition) : Prop where
  id : isXMLText termId = true
  format : isXMLText d.2.2.1 = true
  comment : isXMLText d.2.2.2 = true
  size : d.2.1 = 0 ↔ d.1 ≠ .char
  typed : ∀ node ∈ c.nodes, node.id = some termId → node.type = none → d.2.2.1 = []

/-- What a readable element is parsed to. -/
lemma parseTermConfig_ok {termId : Bytes} (hread : node.isReadable = true)
    (h : parseTermConfig termId node = .ok t) :
    NodeHolds (added t) node ∧ isXMLText t.termFormat = true ∧ isXMLText t.termComment = true ∧
      ((added t).2.1 = 0 ↔ t.termType ≠ .char) ∧ (node.type = none → t.termFormat = []) := by
  have htexts : ∀ s ∈ node.texts, isXMLText s = true := List.all_eq_true.1 hread
  have hcomment : isXMLText (node.comment.getD []) = true := by
    cases hc : node.comment with
    | none => rfl
    | some s => exact htexts s (by simp [TermNode.texts, hc])
  rw [parseTermConfig] at h
  cases htype : node.type with
  | none =>
    rw [htype] at h
    obtain rfl := Except.ok.inj h
    refine ⟨⟨fun _ => rfl, by simp [htype], fun _ => rfl⟩, rfl, hcomment, ?_, fun _ => rfl⟩
    simp [added, Vocabulary.sizeOf]
  | some type =>
    simp only [htype] at h
    split_ifs at h with hempty
    cases hparse : parseDataType type.content with
    | none => simp [hparse] at h
    | some dataType =>
      simp only [hparse, Except.ok.injEq] at h
      subst h
      have hcontent : isXMLText type.content = true := htexts _ (by simp [TermNode.texts, htype])
      have hsize : ∀ s ∈ type.size, isXMLText s = true := fun s hs =>
        htexts s (by simp [TermNode.texts, htype, Option.mem_def.1 hs])
      have hformat : isXMLText (type.format.getD []) = true := by
        cases hf : type.format with
        | none => rfl
        | some s => exact htexts s (by simp [TermNode.texts, htype, hf])
      refine ⟨⟨by simp [htype], ?_, fun _ => rfl⟩, hformat, hcomment, ?_, by simp⟩
      · intro type' htype'
        obtain rfl := Option.some.inj (htype.symm.trans htype')
        refine ⟨hcontent, ⟨hempty, hparse⟩, hsize, ?_, fun _ => rfl⟩
        intro hchar _
        have hdata : dataType = .char := hchar
        simp [added, Vocabulary.sizeOf, hdata, charSize_ne_zero]
      · by_cases hchar : dataType = .char
        · simp [added, Vocabulary.sizeOf, hchar, charSize_ne_zero]
        · simp [added, Vocabulary.sizeOf, hchar]

lemma openConfigFile_ok {nodes : List TermNode} {isLocked : Bool}
    (h : openConfigFile nodes isLocked = .ok c) :
    (∀ node ∈ nodes, node.isReadable = true) ∧ Loaded {} nodes c.vocabulary ∧ c.nodes = nodes ∧
      c.isLocked = isLocked := by
  rw [openConfigFile] at h
  split_ifs at h with hread
  cases hload : loadTerms {} nodes with
  | error x => simp [hload] at h
  | ok w =>
    simp only [hload, Except.ok.injEq] at h
    subst h
    exact ⟨List.all_eq_true.1 hread, loadTerms_loaded Indexed.start' hload, rfl, rfl⟩

lemma invariant_of_open {nodes : List TermNode} {isLocked : Bool}
    (h : openConfigFile nodes isLocked = .ok c) : Invariant c := by
  obtain ⟨hread, hloaded, rfl, -⟩ := openConfigFile_ok h
  refine ⟨hloaded.indexed, ?_, fun _ => ⟨?_, hloaded.nodup, ?_⟩⟩
  · intro node hmem termId hid
    refine ne_zero_of_isXMLText (List.all_eq_true.1 (hread node hmem) termId ?_)
    simp [TermNode.texts, Option.mem_def.1 hid]
  · intro node hmem
    obtain ⟨t, hid, hne, hparse, -, hdef⟩ := hloaded.parsed node hmem
    exact ⟨t.termId, added t, hid, hne, hdef, (parseTermConfig_ok (hread node hmem) hparse).1⟩
  · intro termId hlive
    by_contra hnone
    have hnot : some termId ∉ c.nodes.map TermNode.id := by
      rw [List.mem_map]
      exact hnone
    rw [hloaded.other termId hnot] at hlive
    cases hlive

/-- What an opened document says is what a document can keep. -/
lemma Persists.storable (h : Persists c) {termId : Bytes} {d : Definition}
    (hd : c.vocabulary.definition termId = some d) : Storable c termId d := by
  obtain ⟨opened, hopen, hsame⟩ := h
  obtain ⟨hread, hloaded, -, -⟩ := openConfigFile_ok hopen
  -- every element with the identifier is parsed to its definition
  have hparsed : ∀ node ∈ c.nodes, node.id = some termId → ∃ t, added t = d ∧
      parseTermConfig termId node = .ok t := by
    intro node hmem hid
    obtain ⟨t, ht, -, hparse, -, hdef⟩ := hloaded.parsed node hmem
    have hterm : t.termId = termId := Option.some.inj (ht.symm.trans hid)
    rw [hterm, hsame, hd] at hdef
    exact ⟨t, (Option.some.inj hdef).symm, hterm ▸ hparse⟩
  obtain ⟨node, hmem, hid⟩ : ∃ node ∈ c.nodes, node.id = some termId := by
    by_contra hnone
    have hnot : some termId ∉ c.nodes.map TermNode.id := by
      rw [List.mem_map]
      exact hnone
    have := hloaded.other termId hnot
    rw [hsame, hd] at this
    cases this
  obtain ⟨t, rfl, hparse⟩ := hparsed node hmem hid
  obtain ⟨-, hformat, hcomment, hsize, -⟩ := parseTermConfig_ok (hread node hmem) hparse
  refine ⟨?_, hformat, hcomment, hsize, ?_⟩
  · refine List.all_eq_true.1 (hread node hmem) termId ?_
    simp [TermNode.texts, hid]
  · intro node' hmem' hid' hnone
    obtain ⟨u, hu, hparse'⟩ := hparsed node' hmem' hid'
    have hempty := (parseTermConfig_ok (hread node' hmem') hparse').2.2.2.2 hnone
    exact (congrArg (fun d : Definition => d.2.2.1) hu).symm.trans hempty

/-- An element that says what a storable definition says is readable, and parsed to it. -/
lemma NodeHolds.parse {d : Definition} {termId : Bytes} (h : NodeHolds d node)
    (hs : Storable c termId d) (hmem : node ∈ c.nodes) (hid : node.id = some termId) :
    node.isReadable = true ∧
      ∃ t, t.termId = termId ∧ parseTermConfig termId node = .ok t ∧ added t = d := by
  obtain ⟨dataType, size, format, comment⟩ := d
  have hcomment := h.comment hs.comment
  have htext : ∀ s ∈ node.comment, isXMLText s = true := by
    intro s hc
    rw [Option.mem_def.1 hc, Option.getD_some] at hcomment
    exact hcomment ▸ hs.comment
  cases htype : node.type with
  | none =>
    obtain rfl : dataType = .null := h.untyped htype
    obtain rfl : size = 0 := hs.size.2 fun h => by cases h
    obtain rfl : format = [] := hs.typed node hmem hid htype
    refine ⟨List.all_eq_true.2 fun s hmem' => ?_,
      { termId := termId, termComment := node.comment.getD [] }, rfl, ?_, ?_⟩
    · simp only [TermNode.texts, hid, htype, Option.toList_some, Option.toList_none,
        List.flatMap_nil, List.append_nil, List.mem_append, List.mem_singleton,
        Option.mem_toList] at hmem'
      rcases hmem' with rfl | hmem'
      · exact hs.id
      · exact htext s hmem'
    · rw [parseTermConfig, htype]
    · exact congrArg (fun comment => ((.null, 0, [], comment) : Definition)) hcomment
  | some type =>
    have ht := h.typed type htype
    have hformat := ht.format hs.format
    have hread : node.isReadable = true := by
      refine List.all_eq_true.2 fun s hmem' => ?_
      simp only [TermNode.texts, hid, htype, Option.toList_some, List.flatMap_cons,
        List.flatMap_nil, List.append_nil, List.mem_append, List.mem_cons, List.not_mem_nil,
        or_false, Option.mem_toList] at hmem'
      rcases hmem' with (rfl | rfl | hmem' | hmem') | hmem'
      · exact hs.id
      · exact ht.content
      · exact ht.readable s hmem'
      · rw [Option.mem_def.1 hmem', Option.getD_some] at hformat
        exact hformat ▸ hs.format
      · exact htext s hmem'
    refine ⟨hread,
      { termId := termId
        termType := dataType
        termSize := if dataType = .char then charSize type.size else 0
        termFormat := type.format.getD []
        termComment := node.comment.getD [] }, rfl, ?_, ?_⟩
    · simp only [parseTermConfig, htype, if_neg ht.parsed.1, ht.parsed.2]
    · by_cases hchar : dataType = .char
      · have hne : size ≠ 0 := fun hzero => hs.size.1 hzero hchar
        have hsize : charSize type.size = size := ht.size hchar hne
        simp only [added, Vocabulary.sizeOf, hchar, if_true, hsize, hne, and_false, if_false,
          hformat, hcomment]
      · have hsize : size = 0 := hs.size.2 hchar
        simp only [added, Vocabulary.sizeOf, hchar, if_false, false_and, hsize, hformat, hcomment]

lemma Invariant.persists (h : Invariant c)
    (hs : ∀ termId d, c.vocabulary.definition termId = some d → Storable c termId d) :
    Persists c := by
  have haligned := h.aligned fun termId hlive => by
    obtain ⟨d, hd⟩ := Option.isSome_iff_exists.1 hlive
    exact ne_zero_of_isXMLText (hs termId d hd).id
  have hparse : ∀ node ∈ c.nodes, node.isReadable = true ∧ ∃ t, node.id = some t.termId ∧
      t.termId ≠ [] ∧ parseTermConfig t.termId node = .ok t ∧
      c.vocabulary.definition t.termId = some (added t) := by
    intro node hmem
    obtain ⟨termId, d, hid, hne, hd, hnode⟩ := haligned.holds node hmem
    obtain ⟨hread, t, rfl, hparse, rfl⟩ := hnode.parse (hs termId d hd) hmem hid
    exact ⟨hread, t, hid, hne, hparse, hd⟩
  obtain ⟨w, hw⟩ := loadTerms_ok Indexed.start' haligned.nodup fun node hmem => by
    obtain ⟨-, t, hid, hne, ht, -⟩ := hparse node hmem
    exact ⟨t, hid, hne, ht, rfl⟩
  have hopen : openConfigFile c.nodes c.isLocked =
      .ok { nodes := c.nodes, vocabulary := w, isLocked := c.isLocked } := by
    rw [openConfigFile, if_pos (List.all_eq_true.2 fun node hmem => (hparse node hmem).1), hw]
  have hloaded := loadTerms_loaded Indexed.start' hw
  refine ⟨_, hopen, fun termId => ?_⟩
  by_cases hlive : (c.vocabulary.definition termId).isSome
  · obtain ⟨node, hmem, hid⟩ := haligned.live termId hlive
    obtain ⟨t, ht, -, hp, -, hdef⟩ := hloaded.parsed node hmem
    obtain ⟨-, u, hu, -, hp', hd⟩ := hparse node hmem
    have hsame : t.termId = u.termId := Option.some.inj (ht.symm.trans hu)
    rw [hsame] at hp
    obtain rfl := Except.ok.inj (hp.symm.trans hp')
    obtain rfl : termId = t.termId := Option.some.inj (hid.symm.trans hu)
    exact hdef.trans hd.symm
  · have hnot : some termId ∉ c.nodes.map TermNode.id := by
      intro hmem
      obtain ⟨node, hnode, hid⟩ := List.mem_map.1 hmem
      obtain ⟨-, u, hu, -, -, hd⟩ := hparse node hnode
      obtain rfl : termId = u.termId := Option.some.inj (hid.symm.trans hu)
      rw [hd] at hlive
      exact hlive rfl
    rw [hloaded.other termId hnot, Option.not_isSome_iff_eq_none.1 hlive]
    rfl

/-! ### Runs -/

/-- A call that succeeds. -/
def step (s : List Vocabulary × VocabularyConfig) (e : Edit) :
    Option (List Vocabulary × VocabularyConfig) := (edit s.1 s.2 e).toOption

/-- Behind any calls, opening the saved document gives the same terms if and only if the document
can keep them. -/
theorem vocabularyConfig_persists_iff {nodes : List TermNode} {isLocked : Bool}
    (hopen : openConfigFile nodes isLocked = .ok c) {slots : List Vocabulary} {edits : List Edit}
    (hsize : ∀ e ∈ edits, FitsSize e) {s : List Vocabulary × VocabularyConfig}
    (hrun : run step (slots, c) edits = some s) :
    Persists s.2 ↔
      ∀ termId d, s.2.vocabulary.definition termId = some d → Storable s.2 termId d := by
  have hinv : Invariant s.2 := by
    refine run_induction (P := fun es t => (∀ e ∈ es, FitsSize e) → Invariant t.2)
      (fun _ => invariant_of_open hopen) ?_ hrun hsize
    intro es e t t' _ ih hstep hfits
    have ht := ih fun f hf => hfits f (List.mem_append_left _ hf)
    cases hedit : edit t.1 t.2 e with
    | error x => simp [step, hedit, Except.toOption] at hstep
    | ok u =>
      obtain rfl : u = t' := by simpa [step, hedit, Except.toOption] using hstep
      exact ht.edit (hfits e (List.mem_append_right _ List.mem_cons_self)) hedit
  exact ⟨fun h termId d hd => h.storable hd, hinv.persists⟩

/-- A term becomes a `char`. -/
theorem vocabularyConfig_persists_iff_retyped :
    let edits := [.addTerm { termId := ascii "a", termType := .string, termComment := ascii "<" },
      .updateTerm
        { termId := ascii "a", termType := .char, termSize := 4, termComment := ascii "&" }]
    (run step ([], {}) edits).map (fun s => s.2.vocabulary.definition (ascii "a")) =
        some (some (.char, 4, [], ascii "&")) ∧
      ∃ s, run step ([], {}) edits = some s ∧ (Persists s.2 ↔
        ∀ termId d, s.2.vocabulary.definition termId = some d → Storable s.2 termId d) := by
  intro edits
  have hrun : (run step ([], {}) edits).map (fun s => s.2.vocabulary.definition (ascii "a")) =
      some (some (.char, 4, [], ascii "&")) := by
    decide +kernel
  obtain ⟨s, hs, -⟩ := Option.map_eq_some_iff.1 hrun
  have hopen : openConfigFile [] false = .ok {} := rfl
  refine ⟨hrun, s, hs, vocabularyConfig_persists_iff hopen (fun e he => ?_) hs⟩
  have hfits : ∀ e ∈ edits, FitsSize e := by
    intro e he
    rcases List.mem_cons.1 he with rfl | he
    · exact Nat.two_pow_pos 64
    · obtain rfl := List.mem_singleton.1 he
      exact (by decide : 4 < 2 ^ 64)
  exact hfits e he

/-- A `char` gets the size zero in memory, and the size one from the document. -/
theorem vocabularyConfig_persists_iff_sized :
    let edits := [.addTerm { termId := ascii "a", termType := .char, termSize := 5 },
      .updateTerm { termId := ascii "a", termType := .char }]
    ((run step ([], {}) edits).map fun s => s.2.vocabulary.definition (ascii "a")) =
        some (some (.char, 0, [], [])) ∧
      ((run step ([], {}) edits).bind fun s =>
        (openConfigFile s.2.nodes s.2.isLocked).toOption.map fun d =>
          d.vocabulary.definition (ascii "a")) = some (some (.char, 1, [], [])) ∧
      ∀ s, run step ([], {}) edits = some s → ¬ Persists s.2 := by
  intro edits
  have hmemory : ((run step ([], {}) edits).map fun s =>
      s.2.vocabulary.definition (ascii "a")) = some (some (.char, 0, [], [])) := by
    decide +kernel
  refine ⟨hmemory, by decide +kernel, fun s hs hpersists => ?_⟩
  rw [hs, Option.map_some, Option.some.injEq] at hmemory
  have hsize := (hpersists.storable hmemory).size.1 rfl
  exact hsize rfl

end VocabularyConfig

end PionCore.Platform
