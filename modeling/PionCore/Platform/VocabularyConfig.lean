/-
# The configuration of a vocabulary

The terms of a vocabulary are kept in memory and as elements of an XML document, and the two are
changed side by side: an element has the type of its term with the size and the format as
attributes, and the comment.  Opening the document again parses the elements.  The parser looks
for a size only if the type is `char`.
-/
import PionCore.Platform.ConfigManager
import PionCore.Platform.LogCodec
import PionCore.Platform.VocabularyDefinition

namespace PionCore.Platform

open PionCore.Lib

/-- `getDataTypeAsString`. -/
def DataType.name : DataType → Bytes
  | .null => ascii "null"
  | .int8 => ascii "int8"
  | .uint8 => ascii "uint8"
  | .int16 => ascii "int16"
  | .uint16 => ascii "uint16"
  | .int32 => ascii "int32"
  | .uint32 => ascii "uint32"
  | .int64 => ascii "int64"
  | .uint64 => ascii "uint64"
  | .float => ascii "float"
  | .double => ascii "double"
  | .longDouble => ascii "longdouble"
  | .shortString => ascii "shortstring"
  | .string => ascii "string"
  | .longString => ascii "longstring"
  | .dateTime => ascii "datetime"
  | .date => ascii "date"
  | .time => ascii "time"
  | .char => ascii "char"
  | .blob => ascii "blob"
  | .zblob => ascii "zblob"
  | .object => ascii "object"

def dataTypes : List DataType :=
  [.null, .int8, .uint8, .int16, .uint16, .int32, .uint32, .int64, .uint64, .float, .double,
    .longDouble, .shortString, .string, .longString, .dateTime, .date, .time, .char, .blob, .zblob,
    .object]

/-- `parseDataType`. -/
def parseDataType (s : Bytes) : Option DataType :=
  dataTypes.find? fun t => t.name == s.map toLower

/-- `strtoul` with base ten. -/
def strtoul (s : Bytes) : ℕ :=
  match s.dropWhile isSpace with
  | [] => 0
  | c :: rest =>
    if c = 45 then value true rest
    else if c = 43 then value false rest
    else value false (c :: rest)
where
  /-- A number that is too large becomes the largest one. -/
  value (negative : Bool) (s : Bytes) : ℕ :=
    if 2 ^ 64 ≤ readNumeral 10 (s.takeWhile isDigit) then 2 ^ 64 - 1
    else if negative then (2 ^ 64 - readNumeral 10 (s.takeWhile isDigit)) % 2 ^ 64
    else readNumeral 10 (s.takeWhile isDigit)

/-! ### The elements of the document -/

/-- The `Type` element of a term. -/
structure TypeNode where
  content : Bytes
  size : Option Bytes := none
  format : Option Bytes := none
deriving DecidableEq

/-- The `Term` element: its attribute `id`, and its first children with the names `Type` and
`Comment`, the only ones that are looked for. -/
structure TermNode where
  id : Option Bytes
  type : Option TypeNode := none
  comment : Option Bytes := none
deriving DecidableEq

/-- The exceptions of a vocabulary configuration. -/
inductive VocabularyConfigError where
  | configNotOpen
  | vocabularyIsLocked
  | readConfig
  | emptyType (termId : Bytes)
  | unknownDataType (type : Bytes)
  | updateTermConfig (termId : Bytes)
  | removeTermConfig (termId : Bytes)
  | vocabulary (exception : VocabularyError)
deriving DecidableEq

/-- `addNewTermTypeConfig`. -/
def addNewTermTypeConfig (t : Term) : TypeNode :=
  { content := t.termType.name
    size :=
      if t.termSize ≠ 0 ∨ t.termType = .char then
        some (if t.termSize = 0 ∧ t.termType = .char then ascii "1" else numeral 10 t.termSize)
      else none
    format := if t.termFormat ≠ [] then some (LogCodec.cString t.termFormat) else none }

/-- The `Term` element of a new term. -/
def newTermNode (t : Term) : TermNode :=
  { id := some (LogCodec.cString t.termId)
    type := some (addNewTermTypeConfig t)
    comment := if t.termComment ≠ [] then some (LogCodec.cString t.termComment) else none }

/-- The changes of the `Type` element in `updateTerm`. -/
def updateTypeNode (type : Option TypeNode) (t : Term) : Option TypeNode :=
  match type with
  | none => if t.termType ≠ .null then some (addNewTermTypeConfig t) else none
  | some node =>
    some
      { content := t.termType.name
        size :=
          match node.size with
          | none => if t.termSize ≠ 0 then some (numeral 10 t.termSize) else none
          | some _ => if t.termSize = 0 then none else some (numeral 10 t.termSize)
        format :=
          match node.format with
          | none => if t.termFormat ≠ [] then some (LogCodec.cString t.termFormat) else none
          | some _ => if t.termFormat = [] then none else some (LogCodec.cString t.termFormat) }

/-- The changes of the `Comment` element in `updateTerm`.  `xmlNodeSetContent` replaces the
entities of the content that it gets. -/
def updateComment (comment : Option Bytes) (t : Term) : Option Bytes :=
  match comment with
  | none => if t.termComment ≠ [] then some (LogCodec.cString t.termComment) else none
  | some _ => some (xmlUnescape 0 (xmlEncode t.termComment))

/-- The changes of a `Term` element in `updateTerm`. -/
def updateTermNode (node : TermNode) (t : Term) : TermNode :=
  { node with type := updateTypeNode node.type t, comment := updateComment node.comment t }

/-- `findConfigNodeByAttr`: the place of the element of a term. -/
def findTermNode (nodes : List TermNode) (termId : Bytes) : Option ℕ :=
  nodes.findIdx? fun node => node.id == some termId

/-! ### Parsing -/

/-- The size of a `char`, which is never zero. -/
def charSize (size : Option Bytes) : ℕ :=
  match size with
  | none => 1
  | some s => if s ≠ [] ∧ strtoul s ≠ 0 then strtoul s else 1

/-- `parseTermConfig`. -/
def parseTermConfig (termId : Bytes) (node : TermNode) : Except VocabularyConfigError Term :=
  match node.type with
  | none => .ok { termId := termId, termComment := node.comment.getD [] }
  | some typeNode =>
    if typeNode.content = [] then .error (.emptyType termId)
    else
      match parseDataType typeNode.content with
      | none => .error (.unknownDataType typeNode.content)
      | some type =>
        .ok
          { termId := termId
            termType := type
            termSize := if type = .char then charSize typeNode.size else 0
            termFormat := typeNode.format.getD []
            termComment := node.comment.getD [] }

/-- The texts of an element. -/
def TermNode.texts (node : TermNode) : List Bytes :=
  node.id.toList ++ (node.type.toList.flatMap fun type =>
    type.content :: (type.size.toList ++ type.format.toList)) ++ node.comment.toList

/-- What the XML parser requires of an element in the file. -/
def TermNode.isReadable (node : TermNode) : Bool := node.texts.all isXMLText

/-- The loop of `openConfigFile` over the elements. -/
def loadTerms (v : Vocabulary) : List TermNode → Except VocabularyConfigError Vocabulary
  | [] => .ok v
  | node :: nodes =>
    if node.id.getD [] = [] then .error (.vocabulary .emptyTermId)
    else
      match parseTermConfig (node.id.getD []) node with
      | .error exception => .error exception
      | .ok t =>
        match v.addTerm t with
        | .ok v => loadTerms v nodes
        | .error exception => .error (.vocabulary exception)

/-- `VocabularyConfig`. -/
structure VocabularyConfig where
  isOpen : Bool := true
  nodes : List TermNode := []
  vocabulary : Vocabulary := {}
  isLocked : Bool := false
deriving DecidableEq

namespace VocabularyConfig

/-- `openConfigFile`, for the elements that have been saved. -/
def openConfigFile (nodes : List TermNode) (isLocked : Bool) :
    Except VocabularyConfigError VocabularyConfig :=
  if nodes.all TermNode.isReadable then
    match loadTerms {} nodes with
    | .ok v => .ok { nodes := nodes, vocabulary := v, isLocked := isLocked }
    | .error exception => .error exception
  else .error .readConfig

/-- A signal: every connected vocabulary gets the call, unless one throws. -/
def notify (slot : Vocabulary → Except VocabularyError Vocabulary) :
    List Vocabulary → Except VocabularyConfigError (List Vocabulary)
  | [] => .ok []
  | v :: vs =>
    match slot v with
    | .error exception => .error (.vocabulary exception)
    | .ok v =>
      match notify slot vs with
      | .ok vs => .ok (v :: vs)
      | .error exception => .error exception

/-- A call that throws, or the vocabulary behind it. -/
def checked (result : Vocabulary × Option VocabularyError) : Except VocabularyError Vocabulary :=
  match result.2 with
  | some exception => .error exception
  | none => .ok result.1

/-- The checks at the start of each call. -/
def unlocked (c : VocabularyConfig) : Except VocabularyConfigError Unit :=
  if ! c.isOpen then .error .configNotOpen
  else if c.isLocked then .error .vocabularyIsLocked
  else .ok ()

/-- `addTerm`; the slots are the vocabularies that the configuration has been bound to. -/
def addTerm (slots : List Vocabulary) (c : VocabularyConfig) (t : Term) :
    Except VocabularyConfigError (List Vocabulary × VocabularyConfig) :=
  match c.unlocked with
  | .error exception => .error exception
  | .ok () =>
    match c.vocabulary.addTerm t with
    | .error exception => .error (.vocabulary exception)
    | .ok v =>
      match notify (fun slot => slot.addTerm t) slots with
      | .error exception => .error exception
      | .ok slots => .ok (slots, { c with vocabulary := v, nodes := c.nodes ++ [newTermNode t] })

/-- `updateTerm`. -/
def updateTerm (slots : List Vocabulary) (c : VocabularyConfig) (t : Term) :
    Except VocabularyConfigError (List Vocabulary × VocabularyConfig) :=
  match c.unlocked with
  | .error exception => .error exception
  | .ok () =>
    match checked (c.vocabulary.updateTerm t) with
    | .error exception => .error (.vocabulary exception)
    | .ok v =>
      match notify (fun slot => checked (slot.updateTerm t)) slots with
      | .error exception => .error exception
      | .ok slots =>
        match findTermNode c.nodes t.termId with
        | none => .error (.updateTermConfig t.termId)
        | some i =>
          .ok (slots, { c with
            vocabulary := v
            nodes := c.nodes.modify i fun node => updateTermNode node t })

/-- `removeTerm`. -/
def removeTerm (slots : List Vocabulary) (c : VocabularyConfig) (termId : Bytes) :
    Except VocabularyConfigError (List Vocabulary × VocabularyConfig) :=
  match c.unlocked with
  | .error exception => .error exception
  | .ok () =>
    match checked (c.vocabulary.removeTerm termId) with
    | .error exception => .error (.vocabulary exception)
    | .ok v =>
      match notify (fun slot => checked (slot.removeTerm termId)) slots with
      | .error exception => .error exception
      | .ok slots =>
        match findTermNode c.nodes termId with
        | none => .error (.removeTermConfig termId)
        | some i => .ok (slots, { c with vocabulary := v, nodes := c.nodes.eraseIdx i })

/-- A call that changes the terms. -/
def edit (slots : List Vocabulary) (c : VocabularyConfig) : Vocabulary.Edit →
    Except VocabularyConfigError (List Vocabulary × VocabularyConfig)
  | .addTerm t => addTerm slots c t
  | .updateTerm t => updateTerm slots c t
  | .removeTerm termId => removeTerm slots c termId

/-! ### What a call does -/

/-- The elements behind a call. -/
def nodesBehind (nodes : List TermNode) : Vocabulary.Edit → Option (List TermNode)
  | .addTerm t => some (nodes ++ [newTermNode t])
  | .updateTerm t =>
    (findTermNode nodes t.termId).map fun i => nodes.modify i fun node => updateTermNode node t
  | .removeTerm termId => (findTermNode nodes termId).map nodes.eraseIdx

/-- A call of one vocabulary. -/
def call (e : Vocabulary.Edit) (v : Vocabulary) : Except VocabularyError Vocabulary :=
  match v.thrown e with
  | none => .ok (v.edit e)
  | some exception => .error exception

variable {c d : VocabularyConfig} {slots slots' : List Vocabulary} {e : Vocabulary.Edit}

lemma call_addTerm (t : Term) : call (.addTerm t) = fun v => v.addTerm t := by
  funext v
  rw [call, Vocabulary.thrown, Vocabulary.edit]
  cases v.addTerm t <;> rfl

lemma call_updateTerm (t : Term) :
    call (.updateTerm t) = fun v => checked (v.updateTerm t) := by
  funext v
  rw [call, checked, Vocabulary.thrown, Vocabulary.edit]
  cases (v.updateTerm t).2 <;> rfl

lemma call_removeTerm (termId : Bytes) :
    call (.removeTerm termId) = fun v => checked (v.removeTerm termId) := by
  funext v
  rw [call, checked, Vocabulary.thrown, Vocabulary.edit]
  cases (v.removeTerm termId).2 <;> rfl

lemma call_ok {v w : Vocabulary} : call e v = .ok w ↔ v.thrown e = none ∧ w = v.edit e := by
  rw [call]
  cases v.thrown e with
  | none => exact ⟨fun h => ⟨rfl, (Except.ok.inj h).symm⟩, fun h => congrArg Except.ok h.2.symm⟩
  | some x => simp

/-- A call succeeds in memory, with all slots, and in the document. -/
lemma edit_ok (h : edit slots c e = .ok (slots', d)) :
    c.vocabulary.thrown e = none ∧ notify (call e) slots = .ok slots' ∧
      ∃ nodes, nodesBehind c.nodes e = some nodes ∧
        d = { c with vocabulary := c.vocabulary.edit e, nodes := nodes } := by
  cases e with
  | addTerm t =>
    rw [edit, addTerm, ← call_addTerm] at h
    cases hlock : c.unlocked with
    | error x => simp [hlock] at h
    | ok u =>
      have hmem : c.vocabulary.addTerm t = call (.addTerm t) c.vocabulary := by rw [call_addTerm]
      simp only [hlock, hmem] at h
      cases hv : call (.addTerm t) c.vocabulary with
      | error x => simp [hv] at h
      | ok v =>
        simp only [hv] at h
        cases hslots : notify (call (.addTerm t)) slots with
        | error x => simp [hslots] at h
        | ok s =>
          simp only [hslots, Except.ok.injEq, Prod.mk.injEq] at h
          obtain ⟨rfl, rfl⟩ := h
          obtain ⟨hnone, rfl⟩ := call_ok.1 hv
          exact ⟨hnone, rfl, _, rfl, rfl⟩
  | updateTerm t =>
    rw [edit, updateTerm, ← call_updateTerm] at h
    cases hlock : c.unlocked with
    | error x => simp [hlock] at h
    | ok u =>
      have hmem : checked (c.vocabulary.updateTerm t) = call (.updateTerm t) c.vocabulary := by
        rw [call_updateTerm]
      simp only [hlock, hmem] at h
      cases hv : call (.updateTerm t) c.vocabulary with
      | error x => simp [hv] at h
      | ok v =>
        simp only [hv] at h
        cases hslots : notify (call (.updateTerm t)) slots with
        | error x => simp [hslots] at h
        | ok s =>
          simp only [hslots] at h
          cases hnode : findTermNode c.nodes t.termId with
          | none => simp [hnode] at h
          | some i =>
            simp only [hnode, Except.ok.injEq, Prod.mk.injEq] at h
            obtain ⟨rfl, rfl⟩ := h
            obtain ⟨hnone, rfl⟩ := call_ok.1 hv
            exact ⟨hnone, rfl, _, by rw [nodesBehind, hnode]; rfl, rfl⟩
  | removeTerm termId =>
    rw [edit, removeTerm, ← call_removeTerm] at h
    cases hlock : c.unlocked with
    | error x => simp [hlock] at h
    | ok u =>
      have hmem : checked (c.vocabulary.removeTerm termId) =
          call (.removeTerm termId) c.vocabulary := by
        rw [call_removeTerm]
      simp only [hlock, hmem] at h
      cases hv : call (.removeTerm termId) c.vocabulary with
      | error x => simp [hv] at h
      | ok v =>
        simp only [hv] at h
        cases hslots : notify (call (.removeTerm termId)) slots with
        | error x => simp [hslots] at h
        | ok s =>
          simp only [hslots] at h
          cases hnode : findTermNode c.nodes termId with
          | none => simp [hnode] at h
          | some i =>
            simp only [hnode, Except.ok.injEq, Prod.mk.injEq] at h
            obtain ⟨rfl, rfl⟩ := h
            obtain ⟨hnone, rfl⟩ := call_ok.1 hv
            exact ⟨hnone, rfl, _, by rw [nodesBehind, hnode]; rfl, rfl⟩

end VocabularyConfig

end PionCore.Platform
