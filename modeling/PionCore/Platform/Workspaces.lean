/-
# Workspaces of the configuration

A call that adds, changes or removes a workspace works on the tree of the configuration file itself.
When it throws, what it has done to the tree stays there, and the next call that saves the file
writes it: only the calls that throw before they change something are without effect
(`failed_call_keeps_iff`).

What succeeds of the calls into the XML library is a parameter.
-/
import PionCore.Platform.ReactionEngine
import PionCore.Platform.UserManager

namespace PionCore.Platform

open PionCore.Lib

def nameElementName : Bytes := ascii "Name"
def commentElementName : Bytes := ascii "Comment"

/-- A child of the root element, with its attribute `id`. -/
structure TreeNode where
  node : XMLNode
  id : Option Bytes := none

/-- The tree of the configuration file: the children of the root element, if the file is open. -/
abbrev ConfigTree := Option (List TreeNode)

/-- What the XML library does in a call: which allocations succeed, what it finds in a buffer, and
whether the file is written. -/
structure XMLLibrary where
  newNode : Bool := true
  addChild : Bool := true
  newProp : Bool := true
  /-- `xmlNewTextChild`, for the name of the element -/
  newTextChild : Bytes → Bool := fun _ => true
  parseMemory : Bytes → Option XMLNode
  saveFile : Bool := true

/-- The exceptions of the calls. -/
inductive WorkspaceError where
  | configNotOpen
  | addWorkspaceConfig
  | badXMLBuffer
  | xmlBufferParsing
  | missingResourceElement
  | badWorkspaceConfig
  | setWorkspaceConfig
  | workspaceNotFound
  | removeNonEmptyWorkspace
  | writeConfig
  /-- no exception: a null pointer is used -/
  | nullConfig
deriving DecidableEq

/-- A call that changes workspaces; the identifier of a new one comes from `createUUID`. -/
inductive WorkspaceCall where
  | add (uuid content : Bytes)
  | set (id content : Bytes)
  | remove (id : Bytes)

namespace TreeNode

def isWorkspace (n : TreeNode) : Bool := n.node.isNamed workspaceElementName

/-- An element that `findConfigNodeByAttr` finds. -/
def hasId (n : TreeNode) (id : Bytes) : Bool := n.isWorkspace && decide (n.id = some id)

/-- A reactor of a workspace. -/
def isReactorOf (n : TreeNode) (workspace : Bytes) : Bool :=
  n.node.isNamed reactorElementName &&
    decide (Config.getOption n.node.children workspaceElementName = some workspace)

def newWorkspace (id : Option Bytes) (children : Config) : TreeNode where
  node := .element workspaceElementName children
  id := id

/-- Another list of children. -/
def withChildren (n : TreeNode) (children : Config) : TreeNode :=
  match n.node with
  | .element name _ => { n with node := .element name children }
  | _ => n

end TreeNode

/-- The text of an element that `xmlNodeSetContent` is given encoded. -/
def setText (value : Bytes) : Bytes := xmlUnescape 0 (xmlEncode value)

/-- `updateConfigOption`, with whether a new element can be made; `none` if it returns `false`. -/
def updateConfigOption (newTextChild : Bool) (name value : Bytes) (children : Config) :
    Option Config :=
  if children.hasName name then
    if value = [] then some (children.eraseP fun node => node.isNamed name)
    else some (children.setContent name (setText value))
  else if value = [] then some children
  else if newTextChild then some (children ++ [.element name [.text value]])
  else none

namespace XMLLibrary

variable (x : XMLLibrary)

/-- `createResourceConfig`, and the check that there is something in it. -/
def readBody (content : Bytes) : Except WorkspaceError Config :=
  if content = [] then .error .badXMLBuffer
  else
    match x.parseMemory content with
    | none => .error .xmlBufferParsing
    | some root =>
      match createResourceConfig workspaceElementName root with
      | none => .error .missingResourceElement
      | some [] => .error .badWorkspaceConfig
      | some (node :: nodes) => .ok (node :: nodes)

/-- An option that is found in the body is updated in the children of the workspace. -/
def updateFrom (body : Config) (name : Bytes) (children : Config) : Option Config :=
  match body.getOption name with
  | none => some children
  | some value => updateConfigOption (x.newTextChild name) name value children

/-- The name and the comment, one after the other: the children, and whether all has been done. -/
def updateOptions (body children : Config) : Config × Bool :=
  match x.updateFrom body nameElementName children with
  | none => (children, false)
  | some children =>
    match x.updateFrom body commentElementName children with
    | none => (children, false)
    | some children => (children, true)

/-- `setWorkspaceConfig` for a node with these children. -/
def setWorkspaceNode (content : Bytes) (children : Config) : Config × Option WorkspaceError :=
  match x.readBody content with
  | .error error => (children, some error)
  | .ok body =>
    ((x.updateOptions body children).1,
      if (x.updateOptions body children).2 then none else some .setWorkspaceConfig)

/-- `saveConfigFile`, at the end of a call. -/
def saved (error : Option WorkspaceError) : Option WorkspaceError :=
  match error with
  | some error => some error
  | none => if x.saveFile then none else some .writeConfig

end XMLLibrary

/-- The first element with an identifier is changed. -/
def changeFirst (id : Bytes) (f : TreeNode → TreeNode) : List TreeNode → List TreeNode
  | [] => []
  | n :: nodes => if n.hasId id then f n :: nodes else n :: changeFirst id f nodes

namespace ConfigTree

variable (x : XMLLibrary)

/-- `addWorkspace` -/
def addWorkspace (uuid content : Bytes) (t : ConfigTree) : ConfigTree × Option WorkspaceError :=
  match t with
  | none => (t, some .configNotOpen)
  | some nodes =>
    if x.newNode = false ∨ x.addChild = false then (t, some .addWorkspaceConfig)
    else if x.newProp = false then
      (some (nodes ++ [.newWorkspace none []]), some .addWorkspaceConfig)
    else
      let r := x.setWorkspaceNode content []
      (some (nodes ++ [.newWorkspace (some uuid) r.1]), x.saved r.2)

/-- `setWorkspaceConfig`, which does not ask whether the file is open. -/
def setWorkspaceConfig (id content : Bytes) (t : ConfigTree) :
    ConfigTree × Option WorkspaceError :=
  match t with
  | none => (t, some .nullConfig)
  | some nodes =>
    match nodes.find? fun n => n.hasId id with
    | none => (t, some .workspaceNotFound)
    | some n =>
      let r := x.setWorkspaceNode content n.node.children
      (some (changeFirst id (fun n => n.withChildren r.1) nodes), x.saved r.2)

/-- `removeWorkspace` -/
def removeWorkspace (id : Bytes) (t : ConfigTree) : ConfigTree × Option WorkspaceError :=
  match t with
  | none => (t, some .configNotOpen)
  | some nodes =>
    if (nodes.find? fun n => n.hasId id).isNone then (t, some .workspaceNotFound)
    else if nodes.any fun n => n.isReactorOf id then (t, some .removeNonEmptyWorkspace)
    else (some (nodes.eraseP fun n => n.hasId id), x.saved none)

def perform (t : ConfigTree) : WorkspaceCall → ConfigTree × Option WorkspaceError
  | .add uuid content => addWorkspace x uuid content t
  | .set id content => setWorkspaceConfig x id content t
  | .remove id => removeWorkspace x id t

/-- The workspace elements, with what is below them. -/
def workspaces (t : ConfigTree) : List TreeNode := (t.getD []).filter TreeNode.isWorkspace

end ConfigTree

/-! ### What a failed call has changed -/

namespace XMLLibrary

variable (x : XMLLibrary)

/-- An option of the body cannot be added to the children. -/
def Refuses (body children : Config) (name : Bytes) : Prop :=
  (body.getOption name).isSome = true ∧ children.hasName name = false ∧
    x.newTextChild name = false

/-- An option of the body is new for the children, or has another text. -/
def Changes (body children : Config) (name : Bytes) : Prop :=
  ∃ value, body.getOption name = some value ∧
    (children.hasName name = true ∨ x.newTextChild name = true) ∧
    children.findByName name ≠ some (.element name [.text (setText value)])

/-- The name is not changed, nor the comment if the name is not refused. -/
def KeepsOptions (body children : Config) : Prop :=
  ¬ x.Changes body children nameElementName ∧
    (¬ x.Refuses body children nameElementName → ¬ x.Changes body children commentElementName)

end XMLLibrary

/-- The call throws before it changes a workspace, or writes what was there. -/
def WorkspaceCall.Keeps (x : XMLLibrary) (t : ConfigTree) : WorkspaceCall → Prop
  | .add _ _ => t = none ∨ x.newNode = false ∨ x.addChild = false
  | .set id content => ∀ nodes n body, t = some nodes →
    (nodes.find? fun n => n.hasId id) = some n → x.readBody content = .ok body →
      x.KeepsOptions body n.node.children
  | .remove id => ∀ nodes, t = some nodes →
    (nodes.find? fun n => n.hasId id) = none ∨ (nodes.any fun n => n.isReactorOf id) = true

/-! ### Options -/

variable {x : XMLLibrary} {body children new : Config} {name other value : Bytes}

lemma findByName_eq_none (h : children.hasName name = false) : children.findByName name = none := by
  rw [Config.hasName] at h
  simpa using h

/-- The text of the first element with the name, -/
lemma findByName_setContent (h : children.hasName name = true) (content : Bytes) :
    (children.setContent name content).findByName name =
      some (.element name [.text content]) := by
  induction children with
  | nil => cases h
  | cons node nodes ih =>
    rw [Config.setContent]
    by_cases hnode : node.isNamed name = true
    · rw [if_pos hnode, Config.findByName, List.find?_cons_of_pos (by simp [XMLNode.isNamed])]
    · rw [if_neg hnode, Config.findByName, List.find?_cons_of_neg (by simpa using hnode)]
      refine ih ?_
      rwa [Config.hasName, Config.findByName, List.find?_cons_of_neg (by simpa using hnode)] at h

/-- and no element with another name. -/
lemma findByName_setContent_of_ne (hne : other ≠ name) (content : Bytes) :
    (children.setContent name content).findByName other = children.findByName other := by
  induction children with
  | nil => rfl
  | cons node nodes ih =>
    rw [Config.setContent]
    by_cases hnode : node.isNamed name = true
    · have hold : node.isNamed other = false := by
        cases node with
        | element n cs =>
          have hn : n = name := by simpa [XMLNode.isNamed] using hnode
          simpa [XMLNode.isNamed, hn] using hne.symm
        | text c => rfl
        | comment => rfl
      rw [if_pos hnode, Config.findByName, Config.findByName,
        List.find?_cons_of_neg (by simpa [XMLNode.isNamed] using hne.symm),
        List.find?_cons_of_neg (by simp [hold])]
    · rw [if_neg hnode, Config.findByName, Config.findByName, List.find?_cons, List.find?_cons]
      cases node.isNamed other with
      | false => exact ih
      | true => rfl

lemma setContent_eq_self {content : Bytes}
    (h : children.findByName name = some (.element name [.text content])) :
    children.setContent name content = children := by
  induction children with
  | nil => cases h
  | cons node nodes ih =>
    rw [Config.setContent]
    by_cases hnode : node.isNamed name = true
    · rw [Config.findByName, List.find?_cons_of_pos (by simpa using hnode)] at h
      rw [if_pos hnode, Option.some.inj h]
    · rw [Config.findByName, List.find?_cons_of_neg (by simpa using hnode)] at h
      rw [if_neg hnode, ih h]

namespace XMLLibrary

lemma Refuses.not_changes (h : x.Refuses body children name) : ¬ x.Changes body children name := by
  rintro ⟨value, -, hname | htext, -⟩
  · exact Bool.false_ne_true (h.2.1.symm.trans hname)
  · exact Bool.false_ne_true (h.2.2.symm.trans htext)

/-- How an option of the body is updated. -/
lemma updateFrom_eq (hvalue : body.getOption name = some value) :
    x.updateFrom body name children =
      if children.hasName name = true then some (children.setContent name (setText value))
      else if x.newTextChild name = true then some (children ++ [.element name [.text value]])
      else none := by
  have hne : value ≠ [] := by
    rw [Config.getOption] at hvalue
    simpa using (Option.filter_eq_some_iff.1 hvalue).2
  rw [updateFrom, hvalue]
  dsimp only
  rw [updateConfigOption, if_neg hne, if_neg hne]

lemma updateFrom_eq_none : x.updateFrom body name children = none ↔
    x.Refuses body children name := by
  rw [Refuses]
  cases hvalue : body.getOption name with
  | none =>
    rw [updateFrom, hvalue]
    simp
  | some value =>
    rw [updateFrom_eq hvalue]
    split_ifs with hname htext
    · simp [hname]
    · simp [htext]
    · simp [hname, htext]

/-- What an update does, for the element that it is about, and for all others. -/
lemma updateFrom_eq_some (h : x.updateFrom body name children = some new) :
    (new = children ↔ ¬ x.Changes body children name) ∧
      (new.findByName name = children.findByName name → new = children) ∧
      ∀ other ≠ name, new.findByName other = children.findByName other := by
  cases hvalue : body.getOption name with
  | none =>
    rw [updateFrom, hvalue] at h
    cases h
    refine ⟨iff_of_true rfl ?_, fun _ => rfl, fun _ _ => rfl⟩
    rintro ⟨value, hsome, -⟩
    rw [hvalue] at hsome
    cases hsome
  | some value =>
    rw [updateFrom_eq hvalue] at h
    split_ifs at h with hname htext
    · -- the element is there, and gets another text
      cases h
      have hself := findByName_setContent hname (setText value)
      have hkeep : (children.setContent name (setText value)).findByName name =
          children.findByName name → children.setContent name (setText value) = children :=
        fun heq => setContent_eq_self (heq.symm.trans hself)
      refine ⟨⟨?_, fun hnot => ?_⟩, hkeep, fun other hne => findByName_setContent_of_ne hne _⟩
      · rintro heq ⟨value', hvalue', -, hdiff⟩
        obtain rfl := Option.some.inj (hvalue.symm.trans hvalue')
        rw [heq] at hself
        exact hdiff hself
      · refine hkeep (hself.trans (Eq.symm ?_))
        by_contra hdiff
        exact hnot ⟨value, hvalue, Or.inl hname, hdiff⟩
    · -- a new element at the end
      cases h
      have hnone := findByName_eq_none (Bool.not_eq_true _ ▸ hname)
      have hlen : children ++ [.element name [.text value]] ≠ children := by simp
      refine ⟨iff_of_false hlen fun hnot => ?_, fun heq => ?_, fun other hne => ?_⟩
      · exact hnot ⟨value, hvalue, Or.inr htext, by rw [hnone]; exact (Option.some_ne_none _).symm⟩
      · rw [hnone, Config.findByName, List.find?_append] at heq
        simp [XMLNode.isNamed] at heq
      · rw [Config.findByName, Config.findByName, List.find?_append]
        simp [XMLNode.isNamed, hne.symm]

/-- The options are kept as a whole where each is. -/
lemma updateOptions_eq_self :
    (x.updateOptions body children).1 = children ↔ x.KeepsOptions body children := by
  have hnames : nameElementName ≠ commentElementName := by decide
  rw [updateOptions, KeepsOptions]
  cases hfirst : x.updateFrom body nameElementName children with
  | none =>
    have hrefuses := updateFrom_eq_none.1 hfirst
    exact iff_of_true rfl ⟨hrefuses.not_changes, fun hnot => absurd hrefuses hnot⟩
  | some first =>
    obtain ⟨hname, hkeep, -⟩ := updateFrom_eq_some hfirst
    have hnot : ¬ x.Refuses body children nameElementName := by
      rw [← updateFrom_eq_none, hfirst]
      exact Option.some_ne_none first
    dsimp only
    cases hsecond : x.updateFrom body commentElementName first with
    | none =>
      have hrefuses := updateFrom_eq_none.1 hsecond
      refine ⟨fun heq => ⟨hname.1 heq, fun _ => ?_⟩, fun h => hname.2 h.1⟩
      have heq : first = children := heq
      exact heq ▸ hrefuses.not_changes
    | some second =>
      obtain ⟨hcomment, -, hother⟩ := updateFrom_eq_some hsecond
      constructor
      · intro heq
        have heq : second = children := heq
        -- the comment leaves the name as it is
        have hfirst : first = children := by
          refine hkeep ?_
          rw [← hother nameElementName hnames, heq]
        refine ⟨hname.1 hfirst, fun _ => ?_⟩
        rw [hfirst] at hcomment
        exact hcomment.1 heq
      · rintro ⟨hunchanged, hthen⟩
        have hfirst := hname.2 hunchanged
        rw [hfirst] at hcomment
        exact hcomment.2 (hthen hnot)

end XMLLibrary

/-! ### Calls -/

namespace ConfigTree

variable {n : TreeNode} {nodes : List TreeNode} {id : Bytes} {f : TreeNode → TreeNode}
  {t t' : ConfigTree} {call : WorkspaceCall} {error : WorkspaceError}

lemma isWorkspace_of_hasId (h : n.hasId id = true) : n.isWorkspace = true :=
  (Bool.and_eq_true_iff.1 h).1

/-- The workspaces behind a change of the first with an identifier. -/
lemma filter_changeFirst (hfind : (nodes.find? fun n => n.hasId id) = some n)
    (hf : (f n).isWorkspace = true) :
    (changeFirst id f nodes).filter TreeNode.isWorkspace = nodes.filter TreeNode.isWorkspace ↔
      f n = n := by
  induction nodes with
  | nil => cases hfind
  | cons a nodes ih =>
    rw [changeFirst]
    by_cases ha : a.hasId id = true
    · rw [List.find?_cons_of_pos (by simpa using ha)] at hfind
      cases hfind
      rw [if_pos ha, List.filter_cons_of_pos hf, List.filter_cons_of_pos (isWorkspace_of_hasId ha)]
      exact ⟨fun heq => (List.cons.inj heq).1, fun heq => by rw [heq]⟩
    · rw [List.find?_cons_of_neg (by simpa using ha)] at hfind
      rw [if_neg ha, List.filter_cons, List.filter_cons]
      split_ifs
      · rw [List.cons_inj_right]
        exact ih hfind
      · exact ih hfind

lemma isWorkspace_withChildren (h : n.isWorkspace = true) (children : Config) :
    (n.withChildren children).isWorkspace = true ∧
      (n.withChildren children = n ↔ children = n.node.children) := by
  obtain ⟨node, i⟩ := n
  cases node with
  | element name cs =>
    refine ⟨h, fun heq => ?_, fun heq => ?_⟩
    · have hnode := congrArg (fun n => n.node.children) heq
      exact hnode
    · have heq : children = cs := heq
      rw [heq]
      rfl
  | text c => cases h
  | comment => cases h

lemma filter_eraseP (hfind : (nodes.find? fun n => n.hasId id) ≠ none) :
    (nodes.eraseP fun n => n.hasId id).filter TreeNode.isWorkspace ≠
      nodes.filter TreeNode.isWorkspace := by
  induction nodes with
  | nil => exact absurd rfl hfind
  | cons a nodes ih =>
    by_cases ha : a.hasId id = true
    · rw [List.eraseP_cons_of_pos (by simpa using ha),
        List.filter_cons_of_pos (isWorkspace_of_hasId ha)]
      exact (List.cons_ne_self _ _).symm
    · rw [List.find?_cons_of_neg (by simpa using ha)] at hfind
      rw [List.eraseP_cons_of_neg (by simpa using ha), List.filter_cons, List.filter_cons]
      split_ifs
      · rw [ne_eq, List.cons_inj_right]
        exact ih hfind
      · exact ih hfind

lemma filter_append_newWorkspace (i : Option Bytes) (children : Config) :
    (nodes ++ [TreeNode.newWorkspace i children]).filter TreeNode.isWorkspace ≠
      nodes.filter TreeNode.isWorkspace := by
  have hnew : (TreeNode.newWorkspace i children).isWorkspace = true := by
    simp [TreeNode.isWorkspace, TreeNode.newWorkspace, XMLNode.isNamed]
  rw [List.filter_append, List.filter_cons_of_pos hnew]
  simp

/-- A call that throws leaves the workspaces of the configuration as they were, if and only if it
throws before it changes one, or it writes what was there. -/
theorem failed_call_keeps_iff (x : XMLLibrary) (t : ConfigTree) (call : WorkspaceCall)
    (h : t.perform x call = (t', some error)) :
    t'.workspaces = t.workspaces ↔ call.Keeps x t := by
  cases call with
  | add uuid content =>
    rw [WorkspaceCall.Keeps]
    rw [perform] at h
    cases t with
    | none =>
      cases h
      exact iff_of_true rfl (Or.inl rfl)
    | some nodes =>
      rw [addWorkspace] at h
      dsimp only at h
      split_ifs at h with hlinked hprop
      · cases h
        exact iff_of_true rfl (Or.inr hlinked)
      -- the node is in the tree now, whatever throws behind that
      all_goals
        rw [← (Prod.mk.inj h).1]
        refine iff_of_false (filter_append_newWorkspace _ _) ?_
        rintro (hnone | hnew)
        · cases hnone
        · exact hlinked hnew
  | set id content =>
    rw [WorkspaceCall.Keeps]
    rw [perform] at h
    cases t with
    | none =>
      cases h
      exact iff_of_true rfl fun _ _ _ hnone => by cases hnone
    | some nodes =>
      rw [setWorkspaceConfig] at h
      dsimp only at h
      cases hfind : nodes.find? fun n => n.hasId id with
      | none =>
        rw [hfind] at h
        cases h
        refine iff_of_true rfl fun nodes' n body hnodes hn _ => ?_
        cases hnodes
        rw [hfind] at hn
        cases hn
      | some n =>
        rw [hfind] at h
        have hworkspace := isWorkspace_of_hasId
          (List.find?_some (p := fun n : TreeNode => n.hasId id) hfind)
        obtain ⟨hstill, hsame⟩ :=
          isWorkspace_withChildren hworkspace (x.setWorkspaceNode content n.node.children).1
        rw [← (Prod.mk.inj h).1, workspaces, workspaces, Option.getD_some, Option.getD_some,
          filter_changeFirst hfind hstill, hsame, XMLLibrary.setWorkspaceNode]
        cases hbody : x.readBody content with
        | error e =>
          refine iff_of_true rfl fun nodes' n' body hnodes _ hok => ?_
          cases hok
        | ok body =>
          dsimp only
          rw [XMLLibrary.updateOptions_eq_self]
          constructor
          · intro hkeeps nodes' n' body' hnodes hn hok
            cases hnodes
            obtain rfl := Option.some.inj (hfind.symm.trans hn)
            cases hok
            exact hkeeps
          · exact fun hkeeps => hkeeps nodes n body rfl hfind rfl
  | remove id =>
    rw [WorkspaceCall.Keeps]
    rw [perform] at h
    cases t with
    | none =>
      cases h
      exact iff_of_true rfl fun _ hnone => by cases hnone
    | some nodes =>
      rw [removeWorkspace] at h
      split_ifs at h with hnone hoccupied
      · cases h
        refine iff_of_true rfl fun nodes' hnodes => Or.inl ?_
        cases hnodes
        exact Option.isNone_iff_eq_none.1 hnone
      · cases h
        refine iff_of_true rfl fun nodes' hnodes => Or.inr ?_
        cases hnodes
        exact hoccupied
      · -- only the file can fail behind the removal
        rw [← (Prod.mk.inj h).1]
        have hfind : (nodes.find? fun n => n.hasId id) ≠ none := by simpa using hnone
        refine iff_of_false (filter_eraseP hfind) fun hkeeps => ?_
        rcases hkeeps nodes rfl with hnone' | hany
        · exact hfind hnone'
        · exact hoccupied hany

/-- A library for which everything succeeds, but which reads no buffer. -/
def emptyLibrary : XMLLibrary where
  parseMemory _ := none

/-- A configuration with a workspace. -/
def workspaceTree : ConfigTree :=
  some [.newWorkspace (some (ascii "w1")) [.element nameElementName [.text (ascii "First")]]]

/-- Another body for it cannot be read. -/
theorem failed_call_keeps_iff_set :
    ∃ t' error, workspaceTree.perform emptyLibrary (.set (ascii "w1") (ascii "<")) =
        (t', some error) ∧ t'.workspaces = workspaceTree.workspaces := by
  refine ⟨_, _, rfl, (failed_call_keeps_iff emptyLibrary workspaceTree
    (.set (ascii "w1") (ascii "<")) rfl).2 fun nodes n body _ _ hok => ?_⟩
  cases hok

/-- A new workspace stays in the configuration when its body cannot be read. -/
theorem not_failed_call_keeps :
    ¬ ∀ (x : XMLLibrary) (t t' : ConfigTree) (call : WorkspaceCall) (error : WorkspaceError),
      t.perform x call = (t', some error) → t'.workspaces = t.workspaces := by
  intro hall
  have h := hall emptyLibrary (some []) _ (.add (ascii "w1") (ascii "<")) _ rfl
  cases h

end ConfigTree

end PionCore.Platform
