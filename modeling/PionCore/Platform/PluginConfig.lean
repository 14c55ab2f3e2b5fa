/-
# Plug-ins and their configuration file

`PluginConfig` keeps a collection of plug-ins in memory and their configurations in an XML file,
which is saved with every change.  A plug-in may refuse its configuration when it is in memory
already.  Through all operations the file has plug-ins that are in memory, with the options that
were accepted last (`file_agrees`), and with these they come back when the file is opened again
(`reopen_iff`).
-/
import PionCore.Common.PionId
import PionCore.Lib.Runs
import PionCore.Lib.SortedMap
import PionCore.Platform.ReactionEngine

namespace PionCore.Platform

open PionCore.Lib PionCore.Common

/-- What the plug-ins of a kind do; `V` is the vocabulary. -/
structure PluginKind (P V : Type*) where
  /-- the library of a type is opened, and an object is created -/
  load : Bytes → Option P
  /-- `setConfig`: the object behind the call, and whether the call has returned -/
  setConfig : V → Config → P → P × Bool
  updateVocabulary : V → P → P

/-- A node below the root element of the file, and its attribute `id`. -/
structure ConfigNode where
  id : Option Bytes
  node : XMLNode

namespace ConfigNode

/-- The test of `findConfigNodeByAttr`. -/
def hasId (element pluginId : Bytes) (n : ConfigNode) : Bool :=
  n.node.isNamed element && decide (n.id = some pluginId)

def children (n : ConfigNode) : Config := n.node.children

/-- `getNodeId`, which takes an empty attribute for a missing one. -/
def getNodeId (n : ConfigNode) : Option Bytes := n.id.filter (· ≠ [])

end ConfigNode

/-- Without the first element for the type of the plug-in. -/
def Config.withoutType (config : Config) : Config :=
  config.eraseP fun node => node.isNamed pluginElementName

/-- `PluginConfig` with a file that is open.  The file has the nodes of the document.  `accepted`
and `refused` are no members: they record the configurations that came into the file, and the
plug-ins of which the first configuration was refused. -/
structure PluginConfig (P V : Type*) where
  vocab : V
  /-- the types and the objects, as a `std::map` -/
  plugins : List (Bytes × (Bytes × P)) := []
  nodes : List ConfigNode := []
  accepted : List (Bytes × Config) := []
  refused : List Bytes := []

namespace PluginConfig

variable {P V : Type*} (lib : PluginKind P V) (element : Bytes)

/-- `addPluginNoLock`; the configuration `[]` is a null pointer. -/
def addPluginNoLock (s : PluginConfig P V) (pluginId pluginType : Bytes) (config : Config) :
    PluginConfig P V × Bool :=
  match SortedMap.find pluginId s.plugins, lib.load pluginType with
  | none, some p =>
      let x := if config = [] then (p, true) else lib.setConfig s.vocab config p
      ({ s with
        plugins := SortedMap.assign pluginId (pluginType, x.1) s.plugins
        refused := if x.2 then s.refused else pluginId :: s.refused }, x.2)
  | some _, _ | none, none => (s, false)

/-- `addPlugin`, with the identifier that is created for the plug-in. -/
def addPlugin (s : PluginConfig P V) (id : PionId) (config : Config) : PluginConfig P V :=
  match config.getOption pluginElementName with
  | none => s
  | some pluginType =>
      let x := addPluginNoLock lib s id.toString pluginType config
      if x.2 then
        { x.1 with
          nodes := x.1.nodes ++ [⟨some id.toString, .element element
            (.element pluginElementName [.text pluginType] :: config.withoutType)⟩]
          accepted := SortedMap.assign id.toString config x.1.accepted }
      else x.1

/-- The node of a plug-in gets a configuration; what is no type is removed before. -/
def updateNode (config : Config) (n : ConfigNode) : ConfigNode :=
  { n with
    node := .element element
      ((n.children.filter fun node => node.isNamed pluginElementName) ++ config.withoutType) }

/-- The first node of a plug-in is updated. -/
def updateNodes (pluginId : Bytes) (config : Config) : List ConfigNode → List ConfigNode
  | [] => []
  | n :: nodes =>
      if n.hasId element pluginId then updateNode element config n :: nodes
      else n :: updateNodes pluginId config nodes

/-- `setPluginConfig`. -/
def setPluginConfig (s : PluginConfig P V) (pluginId : Bytes) (config : Config) :
    PluginConfig P V :=
  match SortedMap.find pluginId s.plugins with
  | none => s
  | some (pluginType, p) =>
      let x := lib.setConfig s.vocab config p
      let s := { s with plugins := SortedMap.assign pluginId (pluginType, x.1) s.plugins }
      if x.2 ∧ s.nodes.any (·.hasId element pluginId) then
        { s with
          nodes := updateNodes element pluginId config s.nodes
          accepted := SortedMap.assign pluginId config s.accepted }
      else s

/-- `removePlugin`. -/
def removePlugin (s : PluginConfig P V) (pluginId : Bytes) : PluginConfig P V :=
  match SortedMap.find pluginId s.plugins with
  | none => s
  | some _ =>
      { s with
        plugins := SortedMap.erase pluginId s.plugins
        nodes := s.nodes.eraseP (·.hasId element pluginId) }

/-- `updateVocabulary`. -/
def updateVocabulary (s : PluginConfig P V) (vocab : V) : PluginConfig P V :=
  { s with
    vocab := vocab
    plugins := s.plugins.map fun e => (e.1, (e.2.1, lib.updateVocabulary vocab e.2.2)) }

/-- The loop of `openPluginConfig`, which may throw. -/
def openNodes (s : PluginConfig P V) : List ConfigNode → Option (PluginConfig P V)
  | [] => some s
  | n :: nodes =>
      if n.node.isNamed element then
        match n.getNodeId, n.children.getOption pluginElementName with
        | some pluginId, some pluginType =>
            let x := addPluginNoLock lib s pluginId pluginType n.children
            if x.2 then openNodes x.1 nodes else none
        | some _, none | none, _ => none
      else openNodes s nodes

/-- Another process opens the file. -/
def reopen (s : PluginConfig P V) : Option (PluginConfig P V) :=
  openNodes lib element { s with plugins := [], refused := [] } s.nodes

inductive Op (V : Type*) where
  | addPlugin (id : PionId) (config : Config)
  | setPluginConfig (pluginId : Bytes) (config : Config)
  | removePlugin (pluginId : Bytes)
  | updateVocabulary (vocab : V)
  | reopen

/-- The exceptions of the operations are caught by their callers, but that of `openConfigFile`
ends the process. -/
def step (s : PluginConfig P V) : Op V → Option (PluginConfig P V)
  | .addPlugin id config => some (addPlugin lib element s id config)
  | .setPluginConfig pluginId config => some (setPluginConfig lib element s pluginId config)
  | .removePlugin pluginId => some (removePlugin element s pluginId)
  | .updateVocabulary vocab => some (updateVocabulary lib s vocab)
  | .reopen => reopen lib element s

/-! ### What the file says -/

/-- The same options, but for the type. -/
def SameOptions (c c' : Config) : Prop :=
  ∀ name, name ≠ pluginElementName → c.findByName name = c'.findByName name

/-- A node for a plug-in of a type, with the options of a configuration. -/
structure IsFor (n : ConfigNode) (pluginId pluginType : Bytes) (config : Config) : Prop where
  getNodeId : n.getNodeId = some pluginId
  type : n.children.getOption pluginElementName = some pluginType
  options : SameOptions n.children config

/-- The identifiers in the file. -/
def fileIds (element : Bytes) (nodes : List ConfigNode) : List (Option Bytes) :=
  (nodes.filter fun n => n.node.isNamed element).map ConfigNode.id

/-- What holds between the memory and the file. -/
structure Agrees (s : PluginConfig P V) : Prop where
  nodup : (fileIds element s.nodes).Nodup
  inFile : ∀ n ∈ s.nodes, n.node.isNamed element = true → ∃ pluginId pluginType p config,
    IsFor n pluginId pluginType config ∧
      SortedMap.find pluginId s.plugins = some (pluginType, p) ∧
      SortedMap.find pluginId s.accepted = some config
  inMemory : ∀ pluginId x, SortedMap.find pluginId s.plugins = some x →
    (∃ n ∈ s.nodes, n.hasId element pluginId = true) ∨ pluginId ∈ s.refused

variable {lib element} {s s' : PluginConfig P V} {nodes : List ConfigNode} {n : ConfigNode}
  {pluginId pluginType : Bytes} {config : Config}

/-! ### Configurations -/

lemma findByName_cons_of_ne {name : Bytes} {node : XMLNode} (h : node.isNamed name = false) :
    Config.findByName (node :: config) name = config.findByName name := by
  rw [Config.findByName, List.find?_cons_of_neg (by simp [h])]
  rfl

lemma isNamed_eq {name name' : Bytes} {node : XMLNode} (h : node.isNamed name = true)
    (hne : name' ≠ name) : node.isNamed name' = false := by
  cases node with
  | element k children =>
    simp only [XMLNode.isNamed, decide_eq_true_eq] at h
    simp [XMLNode.isNamed, h, Ne.symm hne]
  | text content => cases h
  | comment => cases h

/-- Without the type a configuration has the same options. -/
lemma sameOptions_withoutType (config : Config) : SameOptions config.withoutType config := by
  intro name hname
  induction config with
  | nil => rfl
  | cons node config ih =>
    by_cases h : node.isNamed pluginElementName = true
    · have herase : Config.withoutType (node :: config) = config := List.eraseP_cons_of_pos h
      rw [herase, findByName_cons_of_ne (isNamed_eq h hname)]
    · have hkeep : Config.withoutType (node :: config) = node :: Config.withoutType config :=
        List.eraseP_cons_of_neg h
      rw [hkeep]
      by_cases hnode : node.isNamed name = true
      · simp [Config.findByName, hnode]
      · rw [findByName_cons_of_ne (by simpa using hnode),
          findByName_cons_of_ne (by simpa using hnode)]
        exact ih

/-- Elements for the type in front of a configuration do not change its options. -/
lemma sameOptions_append {types : Config} (config : Config)
    (h : ∀ node ∈ types, node.isNamed pluginElementName = true) :
    SameOptions (types ++ config.withoutType) config := by
  intro name hname
  induction types with
  | nil => exact sameOptions_withoutType config name hname
  | cons node types ih =>
    rw [List.cons_append, findByName_cons_of_ne (isNamed_eq (h node (by simp)) hname)]
    exact ih fun node' hnode' => h node' (List.mem_cons_of_mem node hnode')

/-- The type is not empty. -/
lemma ne_nil_of_getOption (h : config.getOption pluginElementName = some pluginType) :
    config ≠ [] ∧ pluginType ≠ [] := by
  constructor
  · rintro rfl
    cases h
  · obtain ⟨-, hne⟩ := Option.filter_eq_some_iff.1 h
    simpa using hne

/-- The node of a new plug-in. -/
lemma isFor_new (hne : pluginId ≠ [])
    (h : config.getOption pluginElementName = some pluginType) :
    IsFor ⟨some pluginId, .element element
      (.element pluginElementName [.text pluginType] :: config.withoutType)⟩ pluginId pluginType
      config where
  getNodeId := by simp [ConfigNode.getNodeId, Option.filter, hne]
  type := by
    have htype := (ne_nil_of_getOption h).2
    simp [ConfigNode.children, XMLNode.children, Config.getOption, Config.findByName,
      XMLNode.isNamed, XMLNode.content, XMLNode.contents, Option.filter, htype]
  options := by
    have htypes : ∀ node ∈ [XMLNode.element pluginElementName [.text pluginType]],
        node.isNamed pluginElementName = true := by simp [XMLNode.isNamed]
    exact sameOptions_append config htypes

/-- An updated node keeps its type and has the options of the new configuration. -/
lemma isFor_updateNode {config' : Config} (h : IsFor n pluginId pluginType config) :
    IsFor (updateNode element config' n) pluginId pluginType config' where
  getNodeId := h.getNodeId
  type := by
    have htype := h.type
    rw [Config.getOption] at htype ⊢
    have hsame : Config.findByName (updateNode element config' n).children pluginElementName =
        n.children.findByName pluginElementName := by
      obtain ⟨node, hnode, -⟩ := Option.map_eq_some_iff.1 (Option.filter_eq_some_iff.1 htype).1
      have hfound := List.find?_some hnode
      have hchildren : (updateNode element config' n).children =
          (n.children.filter fun node => node.isNamed pluginElementName) ++ config'.withoutType :=
        rfl
      rw [hnode, hchildren, Config.findByName, List.find?_append, List.find?_filter]
      simp only [and_self, Bool.decide_eq_true]
      rw [Config.findByName] at hnode
      rw [hnode]
      rfl
    rw [hsame]
    exact htype
  options := sameOptions_append config' fun node hnode => (List.mem_filter.1 hnode).2

/-! ### Nodes of the file -/

lemma hasId_iff : n.hasId element pluginId = true ↔
    n.node.isNamed element = true ∧ n.id = some pluginId := by
  simp [ConfigNode.hasId]

lemma mem_fileIds : some pluginId ∈ fileIds element nodes ↔
    ∃ n ∈ nodes, n.hasId element pluginId = true := by
  simp only [fileIds, List.mem_map, List.mem_filter, hasId_iff]
  constructor
  · rintro ⟨n, ⟨hn, hnamed⟩, hid⟩
    exact ⟨n, hn, hnamed, hid⟩
  · rintro ⟨n, hn, hnamed, hid⟩
    exact ⟨n, ⟨hn, hnamed⟩, hid⟩

lemma fileIds_cons (h : n.node.isNamed element = true) :
    fileIds element (n :: nodes) = n.id :: fileIds element nodes := by
  simp [fileIds, h]

lemma fileIds_cons_other (h : ¬ n.node.isNamed element = true) :
    fileIds element (n :: nodes) = fileIds element nodes := by
  simp [fileIds, h]

/-- Behind the node of a plug-in there is no other one. -/
lemma not_hasId_of_nodup (hnodup : (fileIds element (n :: nodes)).Nodup)
    (h : n.hasId element pluginId = true) {n' : ConfigNode} (hn' : n' ∈ nodes) :
    ¬ n'.hasId element pluginId = true := by
  intro hhas
  obtain ⟨hnamed, hid⟩ := hasId_iff.1 h
  rw [fileIds_cons hnamed, List.nodup_cons, hid] at hnodup
  exact hnodup.1 (mem_fileIds.2 ⟨n', hn', hhas⟩)

lemma nodup_tail (hnodup : (fileIds element (n :: nodes)).Nodup) :
    (fileIds element nodes).Nodup := by
  by_cases hnamed : n.node.isNamed element = true
  · rw [fileIds_cons hnamed] at hnodup
    exact hnodup.of_cons
  · rwa [fileIds_cons_other hnamed] at hnodup

lemma fileIds_updateNodes : fileIds element (updateNodes element pluginId config nodes) =
    fileIds element nodes := by
  induction nodes with
  | nil => rfl
  | cons n nodes ih =>
    rw [updateNodes]
    split_ifs with h
    · rw [fileIds_cons (hasId_iff.1 h).1, fileIds_cons (by simp [updateNode, XMLNode.isNamed])]
      rfl
    · by_cases hnamed : n.node.isNamed element = true
      · rw [fileIds_cons hnamed, fileIds_cons hnamed, ih]
      · rw [fileIds_cons_other hnamed, fileIds_cons_other hnamed, ih]

/-- One node is updated, and the others stay. -/
lemma mem_updateNodes (hnodup : (fileIds element nodes).Nodup) {n' : ConfigNode}
    (h : n' ∈ updateNodes element pluginId config nodes) :
    (∃ n ∈ nodes, n.hasId element pluginId = true ∧ n' = updateNode element config n) ∨
      n' ∈ nodes ∧ ¬ n'.hasId element pluginId = true := by
  induction nodes with
  | nil => cases h
  | cons n nodes ih =>
    rw [updateNodes] at h
    split_ifs at h with hhas
    · rcases List.mem_cons.1 h with rfl | h
      · exact Or.inl ⟨n, List.mem_cons_self, hhas, rfl⟩
      · exact Or.inr ⟨List.mem_cons_of_mem n h, not_hasId_of_nodup hnodup hhas h⟩
    · rcases List.mem_cons.1 h with rfl | h
      · exact Or.inr ⟨List.mem_cons_self, hhas⟩
      · rcases ih (nodup_tail hnodup) h with ⟨m, hm, hrest⟩ | ⟨hm, hrest⟩
        · exact Or.inl ⟨m, List.mem_cons_of_mem n hm, hrest⟩
        · exact Or.inr ⟨List.mem_cons_of_mem n hm, hrest⟩

/-- The node of the plug-in is gone, and the others stay. -/
lemma mem_eraseP (hnodup : (fileIds element nodes).Nodup) {n' : ConfigNode}
    (h : n' ∈ nodes.eraseP (·.hasId element pluginId)) :
    n' ∈ nodes ∧ ¬ n'.hasId element pluginId = true := by
  induction nodes with
  | nil => cases h
  | cons n nodes ih =>
    by_cases hhas : n.hasId element pluginId = true
    · rw [List.eraseP_cons_of_pos hhas] at h
      exact ⟨List.mem_cons_of_mem n h, not_hasId_of_nodup hnodup hhas h⟩
    · rw [List.eraseP_cons_of_neg hhas] at h
      rcases List.mem_cons.1 h with rfl | h
      · exact ⟨List.mem_cons_self, hhas⟩
      · obtain ⟨hm, hrest⟩ := ih (nodup_tail hnodup) h
        exact ⟨List.mem_cons_of_mem n hm, hrest⟩

/-- The attribute of a node for a plug-in. -/
lemma IsFor.id_eq (h : IsFor n pluginId pluginType config) : n.id = some pluginId :=
  (Option.filter_eq_some_iff.1 h.getNodeId).1

/-! ### The operations -/

/-- A new plug-in is in memory, whether it takes its configuration or not, or nothing has
happened. -/
lemma addPluginNoLock_cases {x : PluginConfig P V × Bool}
    (h : addPluginNoLock lib s pluginId pluginType config = x) :
    x = (s, false) ∨ ∃ p y, SortedMap.find pluginId s.plugins = none ∧
      lib.load pluginType = some p ∧
      y = (if config = [] then (p, true) else lib.setConfig s.vocab config p) ∧
      x = ({ s with
        plugins := SortedMap.assign pluginId (pluginType, y.1) s.plugins
        refused := if y.2 then s.refused else pluginId :: s.refused }, y.2) := by
  subst h
  unfold addPluginNoLock
  split
  case h_1 p hfind hload => exact Or.inr ⟨p, _, hfind, hload, rfl, rfl⟩
  all_goals exact Or.inl rfl

lemma toString_ne_nil (id : PionId) : id.toString ≠ [] := by
  obtain ⟨data, hlength⟩ := id
  cases data with
  | nil => cases hlength
  | cons x data => simp [PionId.toString, PionId.toStringFrom, PionId.hexPair]

namespace Agrees

/-- What is in the file stays, as long as no plug-in of the file is touched. -/
lemma inFile_of_ne (hs : s.Agrees element) (hn : n ∈ s.nodes)
    (hnamed : n.node.isNamed element = true) (hne : ¬ n.hasId element pluginId = true)
    {x : Bytes × P} {c : Config} : ∃ pluginId' pluginType p config,
      IsFor n pluginId' pluginType config ∧
        SortedMap.find pluginId' (SortedMap.assign pluginId x s.plugins) = some (pluginType, p) ∧
        SortedMap.find pluginId' (SortedMap.assign pluginId c s.accepted) = some config ∧
        SortedMap.find pluginId' s.accepted = some config ∧
        SortedMap.find pluginId' (SortedMap.erase pluginId s.plugins) = some (pluginType, p) := by
  obtain ⟨pluginId', pluginType, p, config, hfor, hplugin, haccepted⟩ := hs.inFile n hn hnamed
  have hid : pluginId' ≠ pluginId := fun heq => hne (hasId_iff.2 ⟨hnamed, heq ▸ hfor.id_eq⟩)
  refine ⟨pluginId', pluginType, p, config, hfor, ?_, ?_, haccepted, ?_⟩
  · rw [SortedMap.find_assign_of_ne hid, hplugin]
  · rw [SortedMap.find_assign_of_ne hid, haccepted]
  · rw [SortedMap.find_erase_of_ne hid, hplugin]

/-- A plug-in of the file is in memory. -/
lemma find_ne_none (hs : s.Agrees element) (hn : n ∈ s.nodes)
    (hhas : n.hasId element pluginId = true) : SortedMap.find pluginId s.plugins ≠ none := by
  obtain ⟨hnamed, hid⟩ := hasId_iff.1 hhas
  obtain ⟨pluginId', pluginType, p, config, hfor, hplugin, -⟩ := hs.inFile n hn hnamed
  obtain rfl : pluginId' = pluginId := Option.some.inj (hfor.id_eq.symm.trans hid)
  rw [hplugin]
  simp

/-- A new plug-in is in memory only. -/
lemma refuse (hs : s.Agrees element) (x : Bytes × P)
    (hnone : SortedMap.find pluginId s.plugins = none) :
    Agrees element { s with
      plugins := SortedMap.assign pluginId x s.plugins, refused := pluginId :: s.refused } := by
  refine ⟨hs.nodup, fun n hn hnamed => ?_, fun pluginId' x' hfind => ?_⟩
  · obtain ⟨pluginId', pluginType, p, config, hfor, hplugin, -, haccepted, -⟩ :=
      hs.inFile_of_ne hn hnamed (fun hhas => hs.find_ne_none hn hhas hnone) (x := x) (c := [])
    exact ⟨pluginId', pluginType, p, config, hfor, hplugin, haccepted⟩
  · by_cases hid : pluginId' = pluginId
    · exact Or.inr (by simp [hid])
    · rcases hs.inMemory pluginId' x' (by rwa [SortedMap.find_assign_of_ne hid] at hfind) with
        hin | hin
      · exact Or.inl hin
      · exact Or.inr (List.mem_cons_of_mem pluginId hin)

/-- A new plug-in is in memory and in the file. -/
lemma accept (hs : s.Agrees element) {n : ConfigNode} {p : P}
    (hnone : SortedMap.find pluginId s.plugins = none) (hnamed : n.node.isNamed element = true)
    (hfor : IsFor n pluginId pluginType config) :
    Agrees element { s with
      plugins := SortedMap.assign pluginId (pluginType, p) s.plugins
      nodes := s.nodes ++ [n]
      accepted := SortedMap.assign pluginId config s.accepted } := by
  -- a node with this identifier would have a plug-in in memory
  have hother : ∀ m ∈ s.nodes, ¬ m.hasId element pluginId = true :=
    fun m hm hhas => hs.find_ne_none hm hhas hnone
  refine ⟨?_, fun m hm hnamed' => ?_, fun pluginId' x hfind => ?_⟩
  · have hids : fileIds element (s.nodes ++ [n]) = fileIds element s.nodes ++ [some pluginId] := by
      simp [fileIds, hnamed, hfor.id_eq]
    rw [hids]
    refine List.Nodup.append hs.nodup (by simp) ?_
    intro i hi hi'
    obtain rfl := List.mem_singleton.1 hi'
    obtain ⟨m, hm, hhas⟩ := mem_fileIds.1 hi
    exact hother m hm hhas
  · rcases List.mem_append.1 hm with hm | hm
    · obtain ⟨pluginId', pluginType', p', config', hfor', hplugin, haccepted, -⟩ :=
        hs.inFile_of_ne hm hnamed' (hother m hm) (x := (pluginType, p)) (c := config)
      exact ⟨pluginId', pluginType', p', config', hfor', hplugin, haccepted⟩
    · obtain rfl := List.mem_singleton.1 hm
      exact ⟨pluginId, pluginType, p, config, hfor, SortedMap.find_assign_self,
        SortedMap.find_assign_self⟩
  · by_cases hid : pluginId' = pluginId
    · refine Or.inl ⟨n, List.mem_append_right _ (List.mem_singleton_self _), ?_⟩
      rw [hasId_iff, hid]
      exact ⟨hnamed, hfor.id_eq⟩
    · rcases hs.inMemory pluginId' x (by rwa [SortedMap.find_assign_of_ne hid] at hfind) with
        ⟨m, hm, hhas⟩ | hin
      · exact Or.inl ⟨m, List.mem_append_left _ hm, hhas⟩
      · exact Or.inr hin

lemma addPlugin (hs : s.Agrees element) (id : PionId) (config : Config) :
    (addPlugin lib element s id config).Agrees element := by
  unfold PluginConfig.addPlugin
  split
  case h_1 => exact hs
  case h_2 pluginType htype =>
    have hadd := addPluginNoLock_cases
      (Eq.refl (addPluginNoLock lib s id.toString pluginType config))
    rcases hadd with hx | ⟨p, ⟨q, ok⟩, hnone, -, -, hx⟩
    · rw [hx]
      exact hs
    · rw [hx]
      cases ok with
      | false => exact hs.refuse (pluginType, q) hnone
      | true =>
        exact hs.accept hnone (by simp [XMLNode.isNamed]) (isFor_new (toString_ne_nil id) htype)

/-- The object of a plug-in changes. -/
lemma assign (hs : s.Agrees element) {p : P} (q : P)
    (hfind : SortedMap.find pluginId s.plugins = some (pluginType, p)) :
    Agrees element
      { s with plugins := SortedMap.assign pluginId (pluginType, q) s.plugins } := by
  refine ⟨hs.nodup, fun n hn hnamed => ?_, fun pluginId' x hfind' => ?_⟩
  · obtain ⟨pluginId', pluginType', p', config, hfor, hplugin, haccepted⟩ := hs.inFile n hn hnamed
    by_cases hid : pluginId' = pluginId
    · subst hid
      obtain ⟨rfl, -⟩ := Prod.mk.inj (Option.some.inj (hfind.symm.trans hplugin))
      exact ⟨_, _, q, config, hfor, SortedMap.find_assign_self, haccepted⟩
    · exact ⟨_, _, p', config, hfor, by rw [SortedMap.find_assign_of_ne hid, hplugin], haccepted⟩
  · by_cases hid : pluginId' = pluginId
    · exact hid ▸ hs.inMemory pluginId _ hfind
    · exact hs.inMemory pluginId' x (by rwa [SortedMap.find_assign_of_ne hid] at hfind')

/-- The node of a plug-in in memory is updated. -/
lemma updateNodes (hs : s.Agrees element) (config : Config) :
    Agrees element { s with
      nodes := updateNodes element pluginId config s.nodes
      accepted := SortedMap.assign pluginId config s.accepted } := by
  refine ⟨?_, fun n hn hnamed => ?_, fun pluginId' x hfind => ?_⟩
  · rw [fileIds_updateNodes]
    exact hs.nodup
  · rcases mem_updateNodes hs.nodup hn with ⟨m, hm, hhas, rfl⟩ | ⟨hm, hhas⟩
    · obtain ⟨hnamed', hid⟩ := hasId_iff.1 hhas
      obtain ⟨pluginId', pluginType, p, config', hfor, hplugin, -⟩ := hs.inFile m hm hnamed'
      obtain rfl : pluginId' = pluginId := Option.some.inj (hfor.id_eq.symm.trans hid)
      exact ⟨_, pluginType, p, config, isFor_updateNode hfor, hplugin, SortedMap.find_assign_self⟩
    · obtain ⟨pluginId', pluginType, p, config', hfor, hplugin, -⟩ := hs.inFile n hm hnamed
      obtain ⟨pluginId'', pluginType', p', config'', hfor', -, haccepted, -⟩ :=
        hs.inFile_of_ne hm hnamed hhas (x := (pluginType, p)) (c := config)
      obtain rfl : pluginId'' = pluginId' :=
        Option.some.inj (hfor'.id_eq.symm.trans hfor.id_eq)
      exact ⟨_, pluginType, p, config'', ⟨hfor.getNodeId, hfor.type, hfor'.options⟩, hplugin,
        haccepted⟩
  · rcases hs.inMemory pluginId' x hfind with hin | hin
    · refine Or.inl (mem_fileIds.1 ?_)
      rw [fileIds_updateNodes]
      exact mem_fileIds.2 hin
    · exact Or.inr hin

lemma setPluginConfig (hs : s.Agrees element) (pluginId : Bytes) (config : Config) :
    (setPluginConfig lib element s pluginId config).Agrees element := by
  unfold PluginConfig.setPluginConfig
  split
  case h_1 => exact hs
  case h_2 pluginType p hfind =>
    have hassigned := hs.assign (lib.setConfig s.vocab config p).1 hfind
    dsimp only
    split_ifs
    · exact hassigned.updateNodes config
    · exact hassigned

lemma removePlugin (hs : s.Agrees element) (pluginId : Bytes) :
    (removePlugin element s pluginId).Agrees element := by
  unfold PluginConfig.removePlugin
  split
  case h_1 => exact hs
  case h_2 x hfind =>
    refine ⟨?_, fun n hn hnamed => ?_, fun pluginId' x' hfind' => ?_⟩
    · have hsub : (s.nodes.eraseP (·.hasId element pluginId)).Sublist s.nodes :=
        List.eraseP_sublist
      have hids : (fileIds element (s.nodes.eraseP (·.hasId element pluginId))).Sublist
          (fileIds element s.nodes) := (hsub.filter _).map _
      exact hs.nodup.sublist hids
    · obtain ⟨hmem, hhas⟩ := mem_eraseP hs.nodup hn
      obtain ⟨pluginId', pluginType, p, config, hfor, -, -, haccepted, hplugin⟩ :=
        hs.inFile_of_ne hmem hnamed hhas (x := x) (c := [])
      exact ⟨pluginId', pluginType, p, config, hfor, hplugin, haccepted⟩
    · have hid : pluginId' ≠ pluginId := by
        rintro rfl
        rw [SortedMap.find_erase_self] at hfind'
        cases hfind'
      rcases hs.inMemory pluginId' x' (by rwa [SortedMap.find_erase_of_ne hid] at hfind') with
        ⟨n, hn, hhas⟩ | hin
      · refine Or.inl ⟨n, (List.mem_eraseP_of_neg ?_).2 hn, hhas⟩
        intro hother
        exact hid (Option.some.inj ((hasId_iff.1 hhas).2.symm.trans (hasId_iff.1 hother).2))
      · exact Or.inr hin

end Agrees

lemma find_map (f : P → P) (k : Bytes) (l : List (Bytes × (Bytes × P))) :
    SortedMap.find k (l.map fun e => (e.1, (e.2.1, f e.2.2))) =
      (SortedMap.find k l).map fun x => (x.1, f x.2) := by
  simp only [SortedMap.find, List.find?_map, Option.map_map]
  rfl

lemma Agrees.updateVocabulary (hs : s.Agrees element) (vocab : V) :
    (updateVocabulary lib s vocab).Agrees element := by
  refine ⟨hs.nodup, fun n hn hnamed => ?_, fun pluginId x hfind => ?_⟩
  · obtain ⟨pluginId, pluginType, p, config, hfor, hplugin, haccepted⟩ := hs.inFile n hn hnamed
    refine ⟨pluginId, pluginType, lib.updateVocabulary vocab p, config, hfor, ?_, haccepted⟩
    simp only [PluginConfig.updateVocabulary, find_map, hplugin]
    rfl
  · simp only [PluginConfig.updateVocabulary, find_map, Option.map_eq_some_iff] at hfind
    obtain ⟨y, hy, -⟩ := hfind
    exact hs.inMemory pluginId y hy

/-! ### Opening the file -/

/-- A node of the file is for a plug-in that is loaded and takes its configuration: its identifier,
its type and the new object. -/
def Loads (lib : PluginKind P V) (element : Bytes) (vocab : V) (n : ConfigNode)
    (pluginId : Bytes) (x : Bytes × P) : Prop :=
  n.node.isNamed element = true ∧ n.getNodeId = some pluginId ∧
    n.children.getOption pluginElementName = some x.1 ∧
    ∃ p, lib.load x.1 = some p ∧ lib.setConfig vocab n.children p = (x.2, true)

lemma Loads.id_eq {vocab : V} {x : Bytes × P} (h : Loads lib element vocab n pluginId x) :
    n.id = some pluginId :=
  (Option.filter_eq_some_iff.1 h.2.1).1

/-- A node for a plug-in is loaded, if there is no plug-in with its identifier. -/
lemma openNodes_cons (hnamed : n.node.isNamed element = true) :
    openNodes lib element s (n :: nodes) = some s' ↔
      ∃ pluginId x, Loads lib element s.vocab n pluginId x ∧
        SortedMap.find pluginId s.plugins = none ∧
        openNodes lib element
          { s with plugins := SortedMap.assign pluginId x s.plugins } nodes = some s' := by
  rw [openNodes, if_pos hnamed]
  constructor
  · intro h
    split at h
    case h_1 pluginId pluginType hid htype =>
      have hadd := addPluginNoLock_cases
        (Eq.refl (addPluginNoLock lib s pluginId pluginType n.children))
      rcases hadd with hx | ⟨p, ⟨q, ok⟩, hnone, hload, hy, hx⟩
      · rw [hx] at h
        cases h
      · rw [hx] at h
        cases ok with
        | false => cases h
        | true =>
          rw [if_neg (ne_nil_of_getOption htype).1] at hy
          exact ⟨pluginId, (pluginType, q), ⟨hnamed, hid, htype, p, hload, hy.symm⟩, hnone, h⟩
    all_goals cases h
  · rintro ⟨pluginId, ⟨pluginType, q⟩, ⟨-, hid, htype, p, hload, hset⟩, hnone, h⟩
    have hconfig := (ne_nil_of_getOption htype).1
    dsimp only at htype hload hset
    have hadd : addPluginNoLock lib s pluginId pluginType n.children =
        ({ s with plugins := SortedMap.assign pluginId (pluginType, q) s.plugins }, true) := by
      simp only [addPluginNoLock, hnone, hload, if_neg hconfig, hset, if_true]
    rw [hid, htype]
    dsimp only
    rw [hadd, if_pos rfl]
    exact h

lemma openNodes_cons_other (hnamed : ¬ n.node.isNamed element = true) :
    openNodes lib element s (n :: nodes) = openNodes lib element s nodes := by
  rw [openNodes, if_neg hnamed]

/-- What a file that is opened has. -/
structure Opened (lib : PluginKind P V) (element : Bytes) (s s' : PluginConfig P V)
    (nodes : List ConfigNode) : Prop where
  frame : s' = { s with plugins := s'.plugins }
  nodup : (fileIds element nodes).Nodup
  loaded : ∀ n ∈ nodes, n.node.isNamed element = true → ∃ pluginId x,
    Loads lib element s.vocab n pluginId x ∧ SortedMap.find pluginId s.plugins = none
  memory : ∀ pluginId x, SortedMap.find pluginId s'.plugins = some x ↔
    SortedMap.find pluginId s.plugins = some x ∨
      ∃ n ∈ nodes, Loads lib element s.vocab n pluginId x

/-- The loop loads all plug-ins of the file. -/
lemma opened_openNodes (h : openNodes lib element s nodes = some s') :
    Opened lib element s s' nodes := by
  induction nodes generalizing s with
  | nil =>
    obtain rfl : s = s' := Option.some.inj h
    exact ⟨rfl, List.nodup_nil, by simp, by simp⟩
  | cons n nodes ih =>
    by_cases hnamed : n.node.isNamed element = true
    · obtain ⟨pluginId, x, hloads, hnone, hopen⟩ := (openNodes_cons hnamed).1 h
      obtain ⟨hframe, hnodup, hloaded, hmemory⟩ := ih hopen
      -- the nodes behind are loaded with this plug-in in memory
      have hother : ∀ m ∈ nodes, ∀ pluginId' x', Loads lib element s.vocab m pluginId' x' →
          pluginId' ≠ pluginId := by
        rintro m hm pluginId' x' hloads' rfl
        obtain ⟨pluginId'', x'', hloads'', hfind⟩ := hloaded m hm hloads'.1
        obtain rfl : pluginId'' = pluginId' :=
          Option.some.inj (hloads''.id_eq.symm.trans hloads'.id_eq)
        rw [SortedMap.find_assign_self] at hfind
        cases hfind
      refine ⟨hframe, ?_, ?_, ?_⟩
      · rw [fileIds_cons hnamed, List.nodup_cons, hloads.id_eq]
        refine ⟨fun hin => ?_, hnodup⟩
        obtain ⟨m, hm, hhas⟩ := mem_fileIds.1 hin
        obtain ⟨hnamed', hid⟩ := hasId_iff.1 hhas
        obtain ⟨pluginId', x', hloads', -⟩ := hloaded m hm hnamed'
        exact hother m hm pluginId' x' hloads' (Option.some.inj (hloads'.id_eq.symm.trans hid))
      · intro m hm hnamed'
        rcases List.mem_cons.1 hm with rfl | hm
        · exact ⟨pluginId, x, hloads, hnone⟩
        · obtain ⟨pluginId', x', hloads', hfind⟩ := hloaded m hm hnamed'
          rw [SortedMap.find_assign_of_ne (hother m hm pluginId' x' hloads')] at hfind
          exact ⟨pluginId', x', hloads', hfind⟩
      · intro pluginId' x'
        rw [hmemory]
        by_cases hid : pluginId' = pluginId
        · subst hid
          rw [SortedMap.find_assign_self, hnone]
          constructor
          · rintro (heq | ⟨m, hm, hloads'⟩)
            · obtain rfl := Option.some.inj heq
              exact Or.inr ⟨n, List.mem_cons_self, hloads⟩
            · exact absurd rfl (hother m hm pluginId' x' hloads')
          · rintro (heq | ⟨m, hm, hloads'⟩)
            · cases heq
            · rcases List.mem_cons.1 hm with rfl | hm
              · -- the node says what is loaded
                obtain ⟨-, -, htype, p, hload, hset⟩ := hloads
                obtain ⟨-, -, htype', p', hload', hset'⟩ := hloads'
                have h1 : x.1 = x'.1 := Option.some.inj (htype.symm.trans htype')
                rw [← h1] at hload'
                obtain rfl : p = p' := Option.some.inj (hload.symm.trans hload')
                have h2 : x.2 = x'.2 := (Prod.mk.inj (hset.symm.trans hset')).1
                exact Or.inl (congrArg some (Prod.ext h1 h2))
              · exact absurd rfl (hother m hm pluginId' x' hloads')
        · rw [SortedMap.find_assign_of_ne hid]
          have hnot : ¬ Loads lib element s.vocab n pluginId' x' := fun hloads' =>
            hid (Option.some.inj (hloads'.id_eq.symm.trans hloads.id_eq))
          rw [List.exists_mem_cons_iff, or_iff_right hnot]
    · rw [openNodes_cons_other hnamed] at h
      obtain ⟨hframe, hnodup, hloaded, hmemory⟩ := ih h
      refine ⟨hframe, by rwa [fileIds_cons_other hnamed], ?_, ?_⟩
      · intro m hm hnamed'
        rcases List.mem_cons.1 hm with rfl | hm
        · exact absurd hnamed' hnamed
        · exact hloaded m hm hnamed'
      · intro pluginId x
        rw [hmemory]
        have hnot : ¬ Loads lib element s.vocab n pluginId x := fun hloads => hnamed hloads.1
        rw [List.exists_mem_cons_iff, or_iff_right hnot]

/-- A file is opened if all of its plug-ins are loaded and take their configurations. -/
lemma exists_openNodes (hnodup : (fileIds element nodes).Nodup)
    (h : ∀ n ∈ nodes, n.node.isNamed element = true → ∃ pluginId x,
      Loads lib element s.vocab n pluginId x ∧ SortedMap.find pluginId s.plugins = none) :
    ∃ s', openNodes lib element s nodes = some s' := by
  induction nodes generalizing s with
  | nil => exact ⟨s, rfl⟩
  | cons n nodes ih =>
    by_cases hnamed : n.node.isNamed element = true
    · obtain ⟨pluginId, x, hloads, hnone⟩ := h n List.mem_cons_self hnamed
      have hrest := ih (s := { s with plugins := SortedMap.assign pluginId x s.plugins })
        (nodup_tail hnodup) fun m hm hnamed' => by
          obtain ⟨pluginId', x', hloads', hnone'⟩ := h m (List.mem_cons_of_mem n hm) hnamed'
          have hid : pluginId' ≠ pluginId := by
            rintro rfl
            exact not_hasId_of_nodup hnodup (hasId_iff.2 ⟨hnamed, hloads.id_eq⟩) hm
              (hasId_iff.2 ⟨hnamed', hloads'.id_eq⟩)
          exact ⟨pluginId', x', hloads', by rwa [SortedMap.find_assign_of_ne hid]⟩
      obtain ⟨s', hs'⟩ := hrest
      exact ⟨s', (openNodes_cons hnamed).2 ⟨pluginId, x, hloads, hnone, hs'⟩⟩
    · rw [openNodes_cons_other hnamed]
      exact ih (by rwa [fileIds_cons_other hnamed] at hnodup) fun m hm hnamed' =>
        h m (List.mem_cons_of_mem n hm) hnamed'

/-! ### Runs -/

/-- The configurations that a file has. -/
def fileConfigs (element : Bytes) (nodes : List ConfigNode) : List (Bytes × Config) :=
  (nodes.filter fun n => n.node.isNamed element).filterMap fun n =>
    n.getNodeId.map fun pluginId => (pluginId, n.children)

lemma find_fileConfigs (hnodup : (fileIds element nodes).Nodup) (hn : n ∈ nodes)
    (hnamed : n.node.isNamed element = true) (hid : n.getNodeId = some pluginId) :
    SortedMap.find pluginId (fileConfigs element nodes) = some n.children := by
  induction nodes with
  | nil => cases hn
  | cons m nodes ih =>
    rcases List.mem_cons.1 hn with rfl | hn
    · simp [fileConfigs, hnamed, hid, SortedMap.find]
    · have hrest := ih (nodup_tail hnodup) hn
      by_cases hm : m.node.isNamed element = true
      · cases hmid : m.getNodeId with
        | none =>
          have hskip : fileConfigs element (m :: nodes) = fileConfigs element nodes := by
            simp [fileConfigs, hm, hmid]
          rwa [hskip]
        | some pluginId' =>
          have hne : pluginId' ≠ pluginId := by
            rintro rfl
            exact not_hasId_of_nodup hnodup
              (hasId_iff.2 ⟨hm, (Option.filter_eq_some_iff.1 hmid).1⟩) hn
              (hasId_iff.2 ⟨hnamed, (Option.filter_eq_some_iff.1 hid).1⟩)
          have hcons : fileConfigs element (m :: nodes) =
              (pluginId', m.children) :: fileConfigs element nodes := by
            simp [fileConfigs, hm, hmid]
          rw [hcons, SortedMap.find_cons_of_ne hne]
          exact hrest
      · have hskip : fileConfigs element (m :: nodes) = fileConfigs element nodes := by
          simp [fileConfigs, hm]
        rwa [hskip]

/-- A file is opened. -/
def start (lib : PluginKind P V) (element : Bytes) (vocab : V) (nodes : List ConfigNode) :
    Option (PluginConfig P V) :=
  reopen lib element { vocab := vocab, nodes := nodes, accepted := fileConfigs element nodes }

/-- A file that was opened agrees with the memory. -/
lemma agrees_of_opened (hopened : Opened lib element { s with plugins := [], refused := [] } s'
    s.nodes) (haccepted : ∀ n ∈ s.nodes, n.node.isNamed element = true →
      ∀ pluginId, n.getNodeId = some pluginId →
        ∃ config, SameOptions n.children config ∧
          SortedMap.find pluginId s.accepted = some config) : s'.Agrees element := by
  obtain ⟨hframe, hnodup, hloaded, hmemory⟩ := hopened
  have hnodes : s'.nodes = s.nodes := by rw [hframe]
  have hsame : s'.accepted = s.accepted := by rw [hframe]
  refine ⟨hnodes ▸ hnodup, fun n hn hnamed => ?_, fun pluginId x hfind => ?_⟩
  · rw [hnodes] at hn
    obtain ⟨pluginId, x, hloads, -⟩ := hloaded n hn hnamed
    obtain ⟨config, hoptions, hfind⟩ := haccepted n hn hnamed pluginId hloads.2.1
    exact ⟨pluginId, x.1, x.2, config, ⟨hloads.2.1, hloads.2.2.1, hoptions⟩,
      (hmemory pluginId x).2 (Or.inr ⟨n, hn, hloads⟩), hsame ▸ hfind⟩
  · rcases (hmemory pluginId x).1 hfind with hnone | ⟨n, hn, hloads⟩
    · cases hnone
    · exact Or.inl ⟨n, hnodes ▸ hn, hasId_iff.2 ⟨hloads.1, hloads.id_eq⟩⟩

lemma agrees_start {vocab : V} (h : start lib element vocab nodes = some s) :
    s.Agrees element := by
  have hopened := opened_openNodes h
  exact agrees_of_opened hopened fun n hn hnamed pluginId hid =>
    ⟨n.children, fun _ _ => rfl, find_fileConfigs hopened.nodup hn hnamed hid⟩

lemma Agrees.step (hs : s.Agrees element) {op : Op V} (h : step lib element s op = some s') :
    s'.Agrees element := by
  cases op with
  | addPlugin id config => exact Option.some.inj h ▸ hs.addPlugin id config
  | setPluginConfig pluginId config => exact Option.some.inj h ▸ hs.setPluginConfig pluginId config
  | removePlugin pluginId => exact Option.some.inj h ▸ hs.removePlugin pluginId
  | updateVocabulary vocab => exact Option.some.inj h ▸ hs.updateVocabulary vocab
  | reopen =>
    refine agrees_of_opened (opened_openNodes h) fun n hn hnamed pluginId hid => ?_
    obtain ⟨pluginId', pluginType, p, config, hfor, -, haccepted⟩ := hs.inFile n hn hnamed
    obtain rfl : pluginId' = pluginId := Option.some.inj (hfor.getNodeId.symm.trans hid)
    exact ⟨config, hfor.options, haccepted⟩

/-- Through all operations, those that throw included, the identifiers in the file are different,
each plug-in of the file is in memory with its type, and the file has the options that it accepted
last; a plug-in that is in memory alone has refused its first configuration. -/
theorem file_agrees {vocab : V} (hstart : start lib element vocab nodes = some s)
    (ops : List (Op V)) (h : run (step lib element) s ops = some s') : s'.Agrees element :=
  run_invariant (P := Agrees element) (fun _ _ _ ht hstep => ht.step hstep) (agrees_start hstart) h

/-- Two plug-ins of which the second one refuses its configuration, a new configuration for the
first one, and another process. -/
theorem file_agrees_two :
    let lib : PluginKind Config Unit :=
      ⟨fun pluginType => if pluginType = ascii "LogCodec" then some [] else none,
        fun _ config _ => (config, ! config.hasName (ascii "Bad")), fun _ p => p⟩
    let config := [.element (ascii "EventType") [.text (ascii "urn:a")],
      .element pluginElementName [.text (ascii "LogCodec")]]
    let ops := [.addPlugin ⟨List.replicate 16 1, rfl⟩ config,
      .addPlugin ⟨List.replicate 16 2, rfl⟩ (config ++ [.element (ascii "Bad") []]),
      .setPluginConfig (PionId.toString ⟨List.replicate 16 1, rfl⟩)
        [.element (ascii "EventType") [.text (ascii "urn:b")]], .reopen]
    let s := (run (step lib (ascii "Codec")) { vocab := () } ops).getD { vocab := () }
    s.plugins.length = 1 ∧ s.Agrees (ascii "Codec") := by
  intro lib config ops s
  have hsome : (run (step lib (ascii "Codec")) { vocab := () } ops).isSome = true := by
    decide +kernel
  obtain ⟨t, ht⟩ := Option.isSome_iff_exists.1 hsome
  have hrun : run (step lib (ascii "Codec")) { vocab := () } ops = some s := by
    simp only [s, ht, Option.getD_some]
  have hstart : start lib (ascii "Codec") () [] = some { vocab := () } := rfl
  exact ⟨by decide +kernel, file_agrees hstart ops hrun⟩

/-- Behind any run, the file can be opened by another process if and only if each of its plug-ins
is found and takes the configuration of the file; the plug-ins are then those of the file, with the
options that were accepted last. -/
theorem reopen_iff {vocab : V} (hstart : start lib element vocab nodes = some s)
    (ops : List (Op V)) (h : run (step lib element) s ops = some s') :
    ((∃ t, reopen lib element s' = some t) ↔
      ∀ n ∈ s'.nodes, n.node.isNamed element = true → ∃ pluginId x,
        Loads lib element s'.vocab n pluginId x) ∧
    ∀ t, reopen lib element s' = some t → t.nodes = s'.nodes ∧
      (∀ pluginId x, SortedMap.find pluginId t.plugins = some x ↔
        ∃ n ∈ s'.nodes, Loads lib element s'.vocab n pluginId x) ∧
      ∀ pluginId x, SortedMap.find pluginId t.plugins = some x → ∃ p config p' stored,
        SortedMap.find pluginId s'.plugins = some (x.1, p) ∧
          SortedMap.find pluginId s'.accepted = some config ∧ SameOptions stored config ∧
          lib.load x.1 = some p' ∧ lib.setConfig s'.vocab stored p' = (x.2, true) := by
  have hagrees : s'.Agrees element :=
    run_invariant (P := Agrees element) (fun _ _ _ ht hstep => ht.step hstep)
      (agrees_start hstart) h
  refine ⟨⟨fun ⟨t, ht⟩ n hn hnamed => ?_, fun hall => ?_⟩, fun t ht => ?_⟩
  · obtain ⟨pluginId, x, hloads, -⟩ := (opened_openNodes ht).loaded n hn hnamed
    exact ⟨pluginId, x, hloads⟩
  · refine exists_openNodes hagrees.nodup fun n hn hnamed => ?_
    obtain ⟨pluginId, x, hloads⟩ := hall n hn hnamed
    exact ⟨pluginId, x, hloads, rfl⟩
  · have hopened := opened_openNodes ht
    have hmemory : ∀ pluginId x, SortedMap.find pluginId t.plugins = some x ↔
        ∃ n ∈ s'.nodes, Loads lib element s'.vocab n pluginId x := by
      intro pluginId x
      rw [hopened.memory]
      exact ⟨fun hor => hor.resolve_left (by simp), Or.inr⟩
    refine ⟨by rw [hopened.frame], hmemory, fun pluginId x hfind => ?_⟩
    obtain ⟨n, hn, hnamed, hid, htype, p', hload, hset⟩ := (hmemory pluginId x).1 hfind
    obtain ⟨pluginId', pluginType, p, config, hfor, hplugin, haccepted⟩ :=
      hagrees.inFile n hn hnamed
    obtain rfl : pluginId' = pluginId := Option.some.inj (hfor.getNodeId.symm.trans hid)
    obtain rfl : pluginType = x.1 := Option.some.inj (hfor.type.symm.trans htype)
    exact ⟨p, config, p', n.children, hplugin, haccepted, hfor.options, hload, hset⟩

/-- The file of one plug-in, whose configuration is changed. -/
theorem reopen_iff_one :
    let lib : PluginKind Config Unit := ⟨fun _ => some [], fun _ config _ => (config, true),
      fun _ p => p⟩
    let config := [.element pluginElementName [.text (ascii "LogCodec")]]
    let ops := [.addPlugin ⟨List.replicate 16 1, rfl⟩ config,
      .setPluginConfig (PionId.toString ⟨List.replicate 16 1, rfl⟩)
        [.element (ascii "EventType") [.text (ascii "urn:b")]]]
    let s := (run (step lib (ascii "Codec")) { vocab := () } ops).getD { vocab := () }
    (∃ t, reopen lib (ascii "Codec") s = some t) ↔
      ∀ n ∈ s.nodes, n.node.isNamed (ascii "Codec") = true → ∃ pluginId x,
        Loads lib (ascii "Codec") s.vocab n pluginId x := by
  intro lib config ops s
  have hsome : (run (step lib (ascii "Codec")) { vocab := () } ops).isSome = true := by
    decide +kernel
  obtain ⟨t, ht⟩ := Option.isSome_iff_exists.1 hsome
  have hrun : run (step lib (ascii "Codec")) { vocab := () } ops = some s := by
    simp only [s, ht, Option.getD_some]
  have hstart : start lib (ascii "Codec") () [] = some { vocab := () } := rfl
  exact (reopen_iff hstart ops hrun).1

end PluginConfig

end PionCore.Platform
