/-
# User accounts

`UserManager` keeps the users in a table, with the hashes of their passwords, and in an XML
document, which is saved behind every change.  The document has one element for each user, and
below it the configuration of the user, in which the password is replaced by its hash.

The document that libxml writes is taken as the tree, which is read back if all of its texts are
XML text.  A write of the file may fail, and leaves the file as it was.
-/
import PionCore.Platform.ConfigManager
import Mathlib.Logic.Function.Basic
import Mathlib.Data.List.Nodup
import Mathlib.Data.List.TakeWhile

namespace PionCore.Platform

open PionCore.Lib

/-! ### The hexadecimal text of a hash -/

/-- Every byte is printed with the format `%.2x`. -/
def toHex (d : Bytes) : Bytes :=
  d.flatMap fun b => [digitChar (b.toNat / 16), digitChar (b.toNat % 16)]

/-- `numeric_cast<unsigned char>(strtoul(buf, 0, 16))`, for two characters.  A number with a minus
sign is out of range, but for zero. -/
def strtoulByte (a b : Byte) : Option Byte :=
  match [a, b].dropWhile isSpace with
  | 45 :: s => if value s = 0 then some 0 else none
  | 43 :: s => some (value s)
  | s => some (value s)
where
  value (s : Bytes) : Byte := UInt8.ofNat (readNumeral 16 (s.takeWhile isHexDigit))

/-- The hash that a text stands for. -/
def parseHash : Bytes → Option Bytes
  | a :: b :: s => (strtoulByte a b).bind fun c => (parseHash s).map (c :: ·)
  | [_] | [] => some []

lemma strtoulByte_digits (b : Byte) :
    strtoulByte (digitChar (b.toNat / 16)) (digitChar (b.toNat % 16)) = some b := by
  have hall : ∀ n < 256, strtoulByte (digitChar (n / 16)) (digitChar (n % 16)) =
      some (UInt8.ofNat n) := by
    decide +kernel
  rw [hall b.toNat b.toNat_lt, UInt8.ofNat_toNat]

/-- A hash is read back from its text. -/
lemma parseHash_toHex (d : Bytes) : parseHash (toHex d) = some d := by
  induction d with
  | nil => rfl
  | cons b d ih =>
    have hcons : toHex (b :: d) =
        digitChar (b.toNat / 16) :: digitChar (b.toNat % 16) :: toHex d := by
      simp [toHex]
    rw [hcons, parseHash, strtoulByte_digits, ih]
    rfl

lemma length_toHex (d : Bytes) : (toHex d).length = 2 * d.length := by
  induction d with
  | nil => rfl
  | cons b d ih =>
    rw [toHex, List.flatMap_cons, List.length_append, ← toHex, ih]
    simp
    omega

lemma isXMLText_toHex (d : Bytes) : isXMLText (toHex d) = true := by
  refine isXMLText_of_ascii fun c hc => ?_
  obtain ⟨b, -, hc⟩ := List.mem_flatMap.1 hc
  have hdigit : ∀ n < 16, isXMLAscii (digitChar n) = true := by decide
  rcases List.mem_cons.1 hc with rfl | hc
  · exact hdigit _ (Nat.div_lt_of_lt_mul b.toNat_lt)
  · rw [List.mem_singleton.1 hc]
    exact hdigit _ (Nat.mod_lt _ (by omega))

/-! ### Users -/

/-- `PionUser`: the text and the hash of the password. -/
structure PionUser where
  password : Bytes
  passwordHash : Bytes
deriving DecidableEq

/-- The exceptions of `UserManager`, and of what it calls. -/
inductive UserError where
  | missingUserIdInConfigFile
  | emptyUserId
  | noPassword
  | duplicateUser
  | userNotFound
  | badPasswordHash
  /-- of `numeric_cast` -/
  | badNumericCast
  | readConfig
  | writeConfig
  | removePluginConfig
  /-- no exception: a null pointer is used -/
  | nullUser
deriving DecidableEq

/-- `setPasswordHash`. -/
def PionUser.ofPasswordHash (text : Bytes) : Except UserError PionUser :=
  if text.length ≠ 40 then .error .badPasswordHash
  else
    match parseHash text with
    | none => .error .badNumericCast
    | some d => .ok ⟨text, d⟩

/-- The names of the elements. -/
def passwordElementName : Bytes := ascii "Password"

/-- An element `User`: its attribute `id`, and what is below it. -/
structure UserNode where
  id : Bytes
  config : Config

/-- The text of the first element with a name is replaced (`xmlNodeSetContent`). -/
def Config.setContent (name content : Bytes) : Config → Config
  | [] => []
  | node :: nodes =>
      if node.isNamed name then .element name [.text content] :: nodes
      else node :: setContent name content nodes

/-- An option that is set is read. -/
lemma Config.getOption_setContent {config : Config} {name content old : Bytes}
    (h : config.getOption name = some old) (hne : content ≠ []) :
    (config.setContent name content).getOption name = some content := by
  have hname := Config.hasName_of_getOption h
  clear h
  induction config with
  | nil => simp [Config.hasName, Config.findByName] at hname
  | cons node nodes ih =>
    rw [Config.setContent]
    by_cases hnode : node.isNamed name = true
    · rw [if_pos hnode]
      have hself : (XMLNode.element name [.text content]).isNamed name = true := by
        simp [XMLNode.isNamed]
      simp [Config.getOption, Config.findByName, hself, XMLNode.content, XMLNode.contents, hne]
    · have hrest : Config.hasName nodes name = true := by
        simpa [Config.hasName, Config.findByName, hnode] using hname
      have hih := ih hrest
      simp only [Config.getOption, Config.findByName] at hih ⊢
      rw [if_neg hnode, List.find?_cons_of_neg (by simpa using hnode)]
      exact hih

namespace XMLNode

mutual

/-- All texts below a node are XML text. -/
def isReadable : XMLNode → Bool
  | element _ nodes => areReadable nodes
  | text c => isXMLText c
  | comment => true

def areReadable : List XMLNode → Bool
  | [] => true
  | node :: nodes => node.isReadable && areReadable nodes

end

end XMLNode

lemma Config.areReadable_setContent {config : Config} {name content : Bytes}
    (h : XMLNode.areReadable config = true) (hcontent : isXMLText content = true) :
    XMLNode.areReadable (config.setContent name content) = true := by
  induction config with
  | nil => rfl
  | cons node nodes ih =>
    obtain ⟨hnode, hnodes⟩ := Bool.and_eq_true_iff.1 h
    rw [Config.setContent]
    split_ifs
    · simp [XMLNode.areReadable, XMLNode.isReadable, hcontent, hnodes]
    · simp [XMLNode.areReadable, hnode, ih hnodes]

def UserNode.isReadable (node : UserNode) : Bool :=
  isXMLText node.id && XMLNode.areReadable node.config

/-- `UserManager`: the table of users, the elements of the document, and those of the saved
file. -/
structure UserManager where
  users : Bytes → Option PionUser := fun _ => none
  nodes : List UserNode := []
  file : List UserNode := []

namespace UserManager

/-- `updateUserManager`, for an element of the file. -/
def addUserHash (users : Bytes → Option PionUser) (node : UserNode) :
    Except UserError (Bytes → Option PionUser) :=
  if node.id = [] then .error .missingUserIdInConfigFile
  else
    match node.config.getOption passwordElementName with
    | none => .error .noPassword
    | some text =>
        if (users node.id).isSome then .error .duplicateUser
        else (PionUser.ofPasswordHash text).map fun user =>
          Function.update users node.id (some user)

/-- `openConfigFile`, for the elements that have been saved. -/
def openConfigFile (nodes : List UserNode) : Except UserError UserManager :=
  if nodes.all UserNode.isReadable then
    (nodes.foldlM addUserHash fun _ => none).map fun users =>
      { users := users, nodes := nodes, file := nodes }
  else .error .readConfig

/-- `saveConfigFile`. -/
def saveConfigFile (m : UserManager) (writes : Bool) {α : Type} (result : α) :
    UserManager × Except UserError α :=
  if writes then ({ m with file := m.nodes }, .ok result) else (m, .error .writeConfig)

/-- A user as `setPassword` makes it. -/
def ofPassword (hash : Bytes → { d : Bytes // d.length = 20 }) (password : Bytes) : PionUser :=
  ⟨toHex (hash password), hash password⟩

variable (hash : Bytes → { d : Bytes // d.length = 20 })

/-- `addUser`.  The attribute ends at a null character. -/
def addUser (m : UserManager) (userId : Bytes) (config : Config) (writes : Bool) :
    UserManager × Except UserError Bytes :=
  if userId = [] then (m, .error .emptyUserId)
  else
    match config.getOption passwordElementName with
    | none => (m, .error .noPassword)
    | some password =>
        if (m.users userId).isSome then (m, .error .duplicateUser)
        else
          let user := ofPassword hash password
          let node : UserNode :=
            ⟨userId.takeWhile (· ≠ 0), config.setContent passwordElementName user.password⟩
          { m with
            users := Function.update m.users userId (some user)
            nodes := m.nodes ++ [node] }.saveConfigFile writes userId

/-- The configuration of the first element of a user is replaced. -/
def setNode (userId : Bytes) (config : Config) : List UserNode → List UserNode
  | [] => []
  | node :: nodes =>
      if node.id = userId then ⟨node.id, config⟩ :: nodes
      else node :: setNode userId config nodes

/-- `setUserConfig`. -/
def setUserConfig (m : UserManager) (userId : Bytes) (config : Config) (writes : Bool) :
    UserManager × Except UserError Unit :=
  if userId = [] then (m, .error .emptyUserId)
  else if m.nodes.all (fun node => node.id ≠ userId) then (m, .error .userNotFound)
  else
    match config.getOption passwordElementName with
    | none => (m, .error .noPassword)
    | some password =>
        match m.users userId with
        | none => (m, .error .nullUser)
        | some user =>
            if password = user.password then
              -- the password is not being changed
              { m with nodes := setNode userId config m.nodes }.saveConfigFile writes ()
            else
              let user := ofPassword hash password
              { m with
                users := Function.update m.users userId (some user)
                nodes := setNode userId
                  (config.setContent passwordElementName user.password) m.nodes }.saveConfigFile
                    writes ()

/-- `removeUser`. -/
def removeUser (m : UserManager) (userId : Bytes) (writes : Bool) :
    UserManager × Except UserError Bool :=
  if (m.users userId).isNone then (m, .ok false)
  else
    let m := { m with users := Function.update m.users userId none }
    if m.nodes.all (fun node => node.id ≠ userId) then (m, .error .removePluginConfig)
    else
      { m with nodes := m.nodes.eraseP (fun node => node.id = userId) }.saveConfigFile writes true

/-- The user has the password (`getUser`). -/
def Accepts (m : UserManager) (userId password : Bytes) : Prop :=
  ∃ user, m.users userId = some user ∧ user.passwordHash = hash password

/-! ### What the elements say -/

section Elements

variable {node : UserNode} {nodes : List UserNode} {users users' : Bytes → Option PionUser}
  {userId : Bytes} {config : Config} {user : PionUser}

/-- The user that an element stands for. -/
def nodeUser (node : UserNode) : Option PionUser :=
  (node.config.getOption passwordElementName).bind fun text =>
    (PionUser.ofPasswordHash text).toOption

/-- The user that the elements have for an identifier. -/
def userOf (nodes : List UserNode) (userId : Bytes) : Option PionUser :=
  (nodes.find? fun node => node.id = userId).bind nodeUser

lemma userOf_cons_self (h : node.id = userId) : userOf (node :: nodes) userId = nodeUser node := by
  simp [userOf, h]

lemma userOf_cons_of_ne (h : node.id ≠ userId) :
    userOf (node :: nodes) userId = userOf nodes userId := by
  simp [userOf, h]

lemma userOf_eq_none (h : userId ∉ nodes.map UserNode.id) : userOf nodes userId = none := by
  have hnone : (nodes.find? fun node => node.id = userId) = none := by
    rw [List.find?_eq_none]
    intro node hnode hid
    exact h (List.mem_map.2 ⟨node, hnode, by simpa using hid⟩)
  rw [userOf, hnone]
  rfl

/-- Every element has an identifier and a password that is a hash, and no two of them have the same
identifier. -/
structure Loadable (nodes : List UserNode) : Prop where
  valid : ∀ node ∈ nodes, node.id ≠ [] ∧ (nodeUser node).isSome
  nodup : (nodes.map UserNode.id).Nodup

lemma addUserHash_ok : addUserHash users node = .ok users' ↔ node.id ≠ [] ∧
    users node.id = none ∧ ∃ user, nodeUser node = some user ∧
      users' = Function.update users node.id (some user) := by
  rw [addUserHash, nodeUser]
  by_cases hid : node.id = []
  · simp [hid]
  · rw [if_neg hid]
    cases htext : node.config.getOption passwordElementName with
    | none => simp
    | some text =>
      simp only [Option.bind_some]
      cases hold : users node.id with
      | some user => simp
      | none =>
        cases PionUser.ofPasswordHash text with
        | error x => simp [Except.map, Except.toOption]
        | ok user => simp [Except.map, Except.toOption, hid, eq_comm]

lemma Loadable.tail (h : Loadable (node :: nodes)) : Loadable nodes :=
  ⟨fun node hnode => h.valid node (List.mem_cons_of_mem _ hnode), (List.nodup_cons.1 h.nodup).2⟩

lemma Loadable.notMem (h : Loadable (node :: nodes)) : node.id ∉ nodes.map UserNode.id :=
  (List.nodup_cons.1 h.nodup).1

/-- Elements that can be loaded are, behind users with other identifiers. -/
lemma Loadable.load (h : Loadable nodes) (hnew : ∀ node ∈ nodes, users node.id = none) :
    nodes.foldlM addUserHash users = .ok fun userId => (userOf nodes userId).or (users userId) := by
  induction nodes generalizing users with
  | nil => rfl
  | cons node nodes ih =>
    obtain ⟨hid, huser⟩ := h.valid node List.mem_cons_self
    obtain ⟨user, huser⟩ := Option.isSome_iff_exists.1 huser
    have hfirst : addUserHash users node = .ok (Function.update users node.id (some user)) :=
      addUserHash_ok.2 ⟨hid, hnew node List.mem_cons_self, user, huser, rfl⟩
    have hother : ∀ other ∈ nodes, Function.update users node.id (some user) other.id = none := by
      intro other hmem
      have hne : other.id ≠ node.id := fun heq => h.notMem (heq ▸ List.mem_map_of_mem hmem)
      rw [Function.update_of_ne hne]
      exact hnew other (List.mem_cons_of_mem _ hmem)
    rw [List.foldlM_cons, hfirst]
    refine (ih h.tail hother).trans (congrArg Except.ok (funext fun userId => ?_))
    by_cases heq : node.id = userId
    · rw [userOf_cons_self heq, userOf_eq_none (heq ▸ h.notMem), ← heq, Function.update_self, huser]
      rfl
    · rw [userOf_cons_of_ne heq, Function.update_of_ne (Ne.symm heq)]

/-- Only such elements are loaded. -/
lemma loadable_of_load (h : nodes.foldlM addUserHash users = .ok users') :
    Loadable nodes ∧ ∀ node ∈ nodes, users node.id = none := by
  induction nodes generalizing users with
  | nil => exact ⟨⟨by simp, by simp⟩, by simp⟩
  | cons node nodes ih =>
    rw [List.foldlM_cons] at h
    cases hfirst : addUserHash users node with
    | error x => rw [hfirst] at h; exact absurd h (by simp [bind, Except.bind])
    | ok next =>
      rw [hfirst] at h
      obtain ⟨hrest, hnew⟩ := ih (show nodes.foldlM addUserHash next = .ok users' from h)
      obtain ⟨hid, hnone, user, huser, rfl⟩ := addUserHash_ok.1 hfirst
      have hne : ∀ other ∈ nodes, other.id ≠ node.id := by
        intro other hmem heq
        have := hnew other hmem
        rw [heq, Function.update_self] at this
        exact absurd this (by simp)
      refine ⟨⟨?_, ?_⟩, ?_⟩
      · intro other hmem
        rcases List.mem_cons.1 hmem with rfl | hmem
        · exact ⟨hid, by simp [huser]⟩
        · exact hrest.valid other hmem
      · rw [List.map_cons, List.nodup_cons]
        refine ⟨fun hmem => ?_, hrest.nodup⟩
        obtain ⟨other, hother, heq⟩ := List.mem_map.1 hmem
        exact hne other hother heq
      · intro other hmem
        rcases List.mem_cons.1 hmem with rfl | hmem
        · exact hnone
        · have := hnew other hmem
          rwa [Function.update_of_ne (hne other hmem)] at this

lemma nodeUser_of_getOption {d : Bytes} (hlength : d.length = 20)
    (h : config.getOption passwordElementName = some (toHex d)) (userId : Bytes) :
    nodeUser ⟨userId, config⟩ = some ⟨toHex d, d⟩ := by
  rw [nodeUser, h, Option.bind_some, PionUser.ofPasswordHash, if_neg, parseHash_toHex]
  · rfl
  · rw [length_toHex, hlength]
    simp

/-- The text of a user is the text that the element has. -/
lemma getOption_of_nodeUser (h : nodeUser node = some user) :
    node.config.getOption passwordElementName = some user.password := by
  obtain ⟨text, htext, huser⟩ := Option.bind_eq_some_iff.1 h
  rw [htext]
  rw [PionUser.ofPasswordHash] at huser
  split_ifs at huser
  · simp [Except.toOption] at huser
  · cases hparse : parseHash text with
    | none => simp [hparse, Except.toOption] at huser
    | some d =>
      rw [hparse] at huser
      obtain rfl := Option.some.inj huser
      rfl

end Elements

/-! ### Edits of the elements -/

section Edits

variable {node : UserNode} {nodes : List UserNode} {userId other : Bytes} {config : Config}

lemma map_id_setNode : (setNode userId config nodes).map UserNode.id = nodes.map UserNode.id := by
  induction nodes with
  | nil => rfl
  | cons node nodes ih =>
    rw [setNode]
    split_ifs
    · rfl
    · rw [List.map_cons, List.map_cons, ih]

lemma mem_setNode (h : node ∈ setNode userId config nodes) :
    node ∈ nodes ∨ node = ⟨userId, config⟩ := by
  induction nodes with
  | nil => exact absurd h (by simp [setNode])
  | cons first nodes ih =>
    rw [setNode] at h
    split_ifs at h with hid
    · rcases List.mem_cons.1 h with rfl | h
      · exact Or.inr (by rw [hid])
      · exact Or.inl (List.mem_cons_of_mem _ h)
    · rcases List.mem_cons.1 h with rfl | h
      · exact Or.inl List.mem_cons_self
      · exact (ih h).imp_left (List.mem_cons_of_mem _)

lemma userOf_setNode_self (h : userId ∈ nodes.map UserNode.id) :
    userOf (setNode userId config nodes) userId = nodeUser ⟨userId, config⟩ := by
  induction nodes with
  | nil => simp at h
  | cons node nodes ih =>
    rw [setNode]
    split_ifs with hid
    · rw [userOf_cons_self (by exact hid), hid]
    · rw [userOf_cons_of_ne hid]
      rw [List.map_cons, List.mem_cons] at h
      exact ih (h.resolve_left (Ne.symm hid))

lemma userOf_setNode_of_ne (h : other ≠ userId) :
    userOf (setNode userId config nodes) other = userOf nodes other := by
  induction nodes with
  | nil => rfl
  | cons node nodes ih =>
    rw [setNode]
    split_ifs with hid
    · have hne : node.id ≠ other := hid.trans_ne h.symm
      rw [userOf_cons_of_ne (by exact hne), userOf_cons_of_ne hne]
    · by_cases heq : node.id = other
      · rw [userOf_cons_self heq, userOf_cons_self heq]
      · rw [userOf_cons_of_ne heq, userOf_cons_of_ne heq, ih]

lemma userOf_append (h : node.id ∉ nodes.map UserNode.id) (other : Bytes) :
    userOf (nodes ++ [node]) other =
      if other = node.id then nodeUser node else userOf nodes other := by
  induction nodes with
  | nil =>
    split_ifs with heq
    · exact userOf_cons_self heq.symm
    · exact userOf_cons_of_ne (Ne.symm heq)
  | cons first nodes ih =>
    rw [List.map_cons, List.mem_cons, not_or] at h
    rw [List.cons_append]
    by_cases heq : first.id = other
    · have hne : other ≠ node.id := heq ▸ Ne.symm h.1
      rw [userOf_cons_self heq, userOf_cons_self heq, if_neg hne]
    · rw [userOf_cons_of_ne heq, userOf_cons_of_ne heq, ih h.2]

lemma userOf_erase (h : (nodes.map UserNode.id).Nodup) (other : Bytes) :
    userOf (nodes.eraseP fun node => node.id = userId) other =
      if other = userId then none else userOf nodes other := by
  induction nodes with
  | nil => simp [userOf]
  | cons node nodes ih =>
    obtain ⟨hnot, hnodup⟩ := List.nodup_cons.1 h
    by_cases hid : node.id = userId
    · rw [List.eraseP_cons_of_pos (by simpa using hid)]
      split_ifs with heq
      · exact userOf_eq_none (heq ▸ hid ▸ hnot)
      · rw [userOf_cons_of_ne (hid.trans_ne (Ne.symm heq))]
    · rw [List.eraseP_cons_of_neg (by simpa using hid)]
      by_cases heq : node.id = other
      · rw [userOf_cons_self heq, userOf_cons_self heq, if_neg (heq ▸ hid)]
      · rw [userOf_cons_of_ne heq, userOf_cons_of_ne heq, ih hnodup]

lemma Loadable.isSome_userOf (h : Loadable nodes) :
    (userOf nodes userId).isSome ↔ userId ∈ nodes.map UserNode.id := by
  constructor
  · intro hsome
    by_contra hnot
    rw [userOf_eq_none hnot] at hsome
    exact absurd hsome (by simp)
  · intro hmem
    obtain ⟨node, hnode, hid⟩ := List.mem_map.1 hmem
    have hfound : (nodes.find? fun node => node.id = userId).isSome :=
      List.find?_isSome.2 ⟨node, hnode, by simpa using hid⟩
    obtain ⟨found, hfound⟩ := Option.isSome_iff_exists.1 hfound
    rw [userOf, hfound]
    exact (h.valid found (List.mem_of_find?_eq_some hfound)).2

end Edits

/-! ### The table and the document agree -/

/-- The document can be read and loaded, it says what the table says, and it is saved. -/
structure Agrees (m : UserManager) : Prop where
  saved : m.file = m.nodes
  readable : ∀ node ∈ m.nodes, node.isReadable = true
  loadable : Loadable m.nodes
  users : m.users = userOf m.nodes

/-- What is saved is opened again with the same users. -/
lemma Agrees.reopen {m : UserManager} (h : m.Agrees) :
    openConfigFile m.file = .ok m := by
  obtain ⟨users, nodes, file⟩ := m
  obtain rfl : file = nodes := h.saved
  obtain rfl : users = userOf file := h.users
  rw [openConfigFile, if_pos (List.all_eq_true.2 h.readable), h.loadable.load fun _ _ => rfl]
  simp [Except.map]

lemma agrees_of_open {nodes : List UserNode} {m : UserManager}
    (h : openConfigFile nodes = .ok m) : m.Agrees := by
  rw [openConfigFile] at h
  split_ifs at h with hread
  cases hload : nodes.foldlM addUserHash fun _ => none with
  | error x => simp [hload, Except.map] at h
  | ok users =>
    have hloadable := (loadable_of_load hload).1
    rw [hloadable.load fun _ _ => rfl] at hload
    obtain rfl := Except.ok.inj hload
    rw [hloadable.load fun _ _ => rfl] at h
    obtain rfl := Except.ok.inj h
    exact ⟨rfl, List.all_eq_true.1 hread, hloadable, by simp⟩

section Calls

variable {hash : Bytes → { d : Bytes // d.length = 20 }} {m : UserManager} {userId : Bytes}
  {config : Config} {password : Bytes}

lemma Agrees.saveConfigFile {m' : UserManager} (hread : ∀ node ∈ m'.nodes, node.isReadable = true)
    (hload : Loadable m'.nodes) (husers : m'.users = userOf m'.nodes) {α : Type} (result : α) :
    (m'.saveConfigFile true result).1.Agrees :=
  ⟨rfl, hread, hload, husers⟩

/-- The element of a password that was set. -/
lemma nodeUser_setContent (h : config.getOption passwordElementName = some password)
    (new userId : Bytes) :
    nodeUser ⟨userId, config.setContent passwordElementName (ofPassword hash new).password⟩ =
      some (ofPassword hash new) := by
  refine nodeUser_of_getOption (hash new).2 (Config.getOption_setContent h ?_) userId
  have hlength : (toHex (hash new)).length = 40 := by rw [length_toHex, (hash new).2]
  intro hnil
  rw [show toHex (hash new) = [] from hnil] at hlength
  exact absurd hlength (by simp)

/-- The configuration of a user whose element stays where it is. -/
lemma Agrees.setNode {user : PionUser} (h : m.Agrees) (hmem : userId ∈ m.nodes.map UserNode.id)
    (hid : userId ≠ []) (hxml : isXMLText userId = true)
    (hread : XMLNode.areReadable config = true) (huser : nodeUser ⟨userId, config⟩ = some user) :
    (∀ node ∈ setNode userId config m.nodes, node.isReadable = true) ∧
      Loadable (setNode userId config m.nodes) ∧
      Function.update m.users userId (some user) = userOf (setNode userId config m.nodes) := by
  refine ⟨?_, ⟨?_, ?_⟩, ?_⟩
  · intro node hnode
    rcases mem_setNode hnode with hnode | rfl
    · exact h.readable node hnode
    · simp [UserNode.isReadable, hxml, hread]
  · intro node hnode
    rcases mem_setNode hnode with hnode | rfl
    · exact h.loadable.valid node hnode
    · exact ⟨hid, by simp [huser]⟩
  · rw [map_id_setNode]
    exact h.loadable.nodup
  · funext other
    by_cases heq : other = userId
    · rw [heq, Function.update_self, userOf_setNode_self hmem, huser]
    · rw [Function.update_of_ne heq, userOf_setNode_of_ne heq, h.users]

lemma Agrees.addUser (h : m.Agrees) (hxml : isXMLText userId = true)
    (hread : XMLNode.areReadable config = true) :
    (addUser hash m userId config true).1.Agrees := by
  rw [UserManager.addUser]
  by_cases hid : userId = []
  · rw [if_pos hid]
    exact h
  · rw [if_neg hid]
    cases hpassword : config.getOption passwordElementName with
    | none => exact h
    | some password =>
      simp only
      split_ifs with hold
      · exact h
      · have hnot : userId ∉ m.nodes.map UserNode.id := by
          rw [h.users, h.loadable.isSome_userOf] at hold
          exact hold
        have hstring : userId.takeWhile (· ≠ 0) = userId :=
          List.takeWhile_eq_self_iff.2 fun c hc => by
            simpa using ne_zero_of_isXMLText hxml c hc
        have huser : nodeUser ⟨userId, config.setContent passwordElementName
            (ofPassword hash password).password⟩ = some (ofPassword hash password) :=
          nodeUser_setContent hpassword password userId
        rw [hstring]
        refine Agrees.saveConfigFile ?_ ⟨?_, ?_⟩ ?_ _
        · intro node hnode
          rcases List.mem_append.1 hnode with hnode | hnode
          · exact h.readable node hnode
          · rw [List.mem_singleton.1 hnode]
            have hnew : XMLNode.areReadable
                (config.setContent passwordElementName (toHex (hash password))) = true :=
              Config.areReadable_setContent hread (isXMLText_toHex (hash password))
            simp [UserNode.isReadable, hxml, ofPassword, hnew]
        · intro node hnode
          rcases List.mem_append.1 hnode with hnode | hnode
          · exact h.loadable.valid node hnode
          · rw [List.mem_singleton.1 hnode]
            exact ⟨hid, by simp [huser]⟩
        · simp only [List.map_append, List.map_cons, List.map_nil]
          exact List.nodup_append.2 ⟨h.loadable.nodup, by simp, fun a ha b hb heq =>
            hnot (List.mem_singleton.1 hb ▸ heq ▸ ha)⟩
        · funext other
          simp only
          rw [userOf_append (by exact hnot)]
          split_ifs with heq
          · rw [show other = userId from heq, Function.update_self, huser]
          · rw [Function.update_of_ne (by exact heq), h.users]

lemma Agrees.setUserConfig (h : m.Agrees) (hread : XMLNode.areReadable config = true) :
    (setUserConfig hash m userId config true).1.Agrees := by
  rw [UserManager.setUserConfig]
  split_ifs with hid hfound
  · exact h
  · exact h
  · have hmem : userId ∈ m.nodes.map UserNode.id := by
      simpa using hfound
    have hxml : isXMLText userId = true := by
      obtain ⟨node, hnode, rfl⟩ := List.mem_map.1 hmem
      exact (Bool.and_eq_true_iff.1 (h.readable node hnode)).1
    cases hpassword : config.getOption passwordElementName with
    | none => exact h
    | some password =>
      have hsome : (m.users userId).isSome := by
        rw [h.users, h.loadable.isSome_userOf]
        exact hmem
      obtain ⟨user, huser⟩ := Option.isSome_iff_exists.1 hsome
      simp only [huser]
      split_ifs with hsame
      · -- the text of the element is that of the table
        have hnode : nodeUser ⟨userId, config⟩ = some user := by
          rw [h.users] at huser
          obtain ⟨node, -, hnode⟩ := Option.bind_eq_some_iff.1 huser
          have htext := getOption_of_nodeUser hnode
          rw [nodeUser, htext, ← hsame, ← hpassword] at hnode
          exact hnode
        obtain ⟨hreads, hloads, husers⟩ := h.setNode hmem hid hxml hread hnode
        rw [← huser, Function.update_eq_self] at husers
        exact Agrees.saveConfigFile hreads hloads husers _
      · obtain ⟨hreads, hloads, husers⟩ := h.setNode hmem hid hxml
          (Config.areReadable_setContent hread
            (isXMLText_toHex (hash password)))
          (nodeUser_setContent hpassword password userId)
        exact Agrees.saveConfigFile hreads hloads husers _

lemma Agrees.removeUser (h : m.Agrees) : (removeUser m userId true).1.Agrees := by
  rw [UserManager.removeUser]
  split_ifs with hnone
  · exact h
  · have hmem : userId ∈ m.nodes.map UserNode.id := by
      rw [h.users] at hnone
      exact h.loadable.isSome_userOf.1 (Option.isSome_iff_ne_none.2 (by simpa using hnone))
    have hfound : ¬ m.nodes.all (fun node => node.id ≠ userId) = true := by
      simpa using hmem
    simp only [if_neg hfound]
    have hsub : (m.nodes.eraseP fun node => node.id = userId).Sublist m.nodes :=
      List.eraseP_sublist
    refine Agrees.saveConfigFile (fun node hnode => h.readable node (hsub.subset hnode))
      ⟨fun node hnode => h.loadable.valid node (hsub.subset hnode),
        (hsub.map UserNode.id).nodup h.loadable.nodup⟩ ?_ _
    funext other
    simp only
    rw [userOf_erase h.loadable.nodup]
    split_ifs with heq
    · rw [heq, Function.update_self]
    · rw [Function.update_of_ne heq, h.users]

end Calls

/-! ### Histories of calls -/

/-- A call, and whether the file can be written. -/
inductive UserCall where
  | addUser (userId : Bytes) (config : Config) (writes : Bool)
  | setUserConfig (userId : Bytes) (config : Config) (writes : Bool)
  | removeUser (userId : Bytes) (writes : Bool)

variable (hash : Bytes → { d : Bytes // d.length = 20 })

/-- The manager behind a call, which may have thrown. -/
def behind (m : UserManager) : UserCall → UserManager
  | .addUser userId config writes => (addUser hash m userId config writes).1
  | .setUserConfig userId config writes => (setUserConfig hash m userId config writes).1
  | .removeUser userId writes => (removeUser m userId writes).1

/-- The file can be written, a new identifier is XML text, and the elements come from a document
that was read. -/
def UserCall.Fits : UserCall → Prop
  | .addUser userId config writes =>
      writes = true ∧ isXMLText userId = true ∧ XMLNode.areReadable config = true
  | .setUserConfig _ config writes => writes = true ∧ XMLNode.areReadable config = true
  | .removeUser _ writes => writes = true

/-- The password of a user in the file. -/
def storedPassword (nodes : List UserNode) (userId : Bytes) : Option Bytes :=
  (nodes.find? fun node => node.id = userId).bind fun node =>
    node.config.getOption passwordElementName

/-- A call that succeeds leaves the hash of the password in the file, unless the password was the
stored hash itself. -/
def HashStored (m : UserManager) : UserCall → Prop
  | .addUser userId config writes =>
      ∀ password, config.getOption passwordElementName = some password →
        (addUser hash m userId config writes).2 = .ok userId →
          storedPassword (addUser hash m userId config writes).1.file userId =
            some (toHex (hash password))
  | .setUserConfig userId config writes =>
      ∀ password, config.getOption passwordElementName = some password →
        (setUserConfig hash m userId config writes).2 = .ok () →
          storedPassword (setUserConfig hash m userId config writes).1.file userId =
            some (if storedPassword m.file userId = some password then password
              else toHex (hash password))
  | .removeUser _ _ => True

section Histories

variable {hash} {m m' : UserManager} {c : UserCall} {userId : Bytes}

lemma Agrees.behind (h : m.Agrees) (hc : c.Fits) : (behind hash m c).Agrees := by
  cases c with
  | addUser userId config writes =>
    obtain ⟨rfl, hxml, hread⟩ := hc
    exact h.addUser hxml hread
  | setUserConfig userId config writes =>
    obtain ⟨rfl, hread⟩ := hc
    exact h.setUserConfig hread
  | removeUser userId writes =>
    obtain rfl : writes = true := hc
    exact h.removeUser

/-- The file has the texts of the table. -/
lemma Agrees.storedPassword (h : m.Agrees) {user : PionUser} (huser : m.users userId = some user) :
    storedPassword m.file userId = some user.password := by
  rw [h.users] at huser
  obtain ⟨node, hnode, huser⟩ := Option.bind_eq_some_iff.1 huser
  rw [UserManager.storedPassword, h.saved, hnode]
  exact getOption_of_nodeUser huser

lemma Agrees.hashStored (h : m.Agrees) (hc : c.Fits) : HashStored hash m c := by
  have hbehind : (UserManager.behind hash m c).Agrees := h.behind hc
  cases c with
  | removeUser => exact trivial
  | addUser userId config writes =>
    intro password hpassword hok
    have huser : (UserManager.addUser hash m userId config writes).1.users userId =
        some (ofPassword hash password) := by
      obtain ⟨rfl, -⟩ := hc
      rw [UserManager.addUser] at hok ⊢
      by_cases hid : userId = []
      · simp [hid] at hok
      · rw [if_neg hid, hpassword] at hok ⊢
        simp only at hok ⊢
        split_ifs at hok ⊢
        simp [UserManager.saveConfigFile]
    exact hbehind.storedPassword huser
  | setUserConfig userId config writes =>
    intro password hpassword hok
    have huser : ∃ user, m.users userId = some user ∧
        (UserManager.setUserConfig hash m userId config writes).1.users userId =
          some (if password = user.password then user else ofPassword hash password) := by
      obtain ⟨rfl, -⟩ := hc
      rw [UserManager.setUserConfig] at hok ⊢
      split_ifs at hok ⊢ with hid hfound
      rw [hpassword] at hok ⊢
      cases huser : m.users userId with
      | none => simp [huser] at hok
      | some user =>
        refine ⟨user, rfl, ?_⟩
        simp only
        split_ifs with hsame
        · exact huser
        · simp [UserManager.saveConfigFile]
    obtain ⟨user, hold, hnew⟩ := huser
    refine (hbehind.storedPassword hnew).trans ?_
    rw [h.storedPassword hold]
    by_cases hsame : password = user.password
    · simp [hsame]
    · rw [if_neg hsame, if_neg fun heq => hsame (Option.some.inj heq).symm]
      rfl

/-- Behind every history of calls in which the file can be written and new identifiers are XML
text, the saved file is opened with exactly the users of the running manager, and no call has left
a password in it that is not a hash. -/
theorem users_persist {nodes : List UserNode} (hopen : openConfigFile nodes = .ok m)
    {calls : List UserCall} (hcalls : ∀ c ∈ calls, c.Fits) :
    (∃ m', openConfigFile (calls.foldl (UserManager.behind hash) m).file = .ok m' ∧
      ∀ userId password, m'.Accepts hash userId password ↔
        (calls.foldl (UserManager.behind hash) m).Accepts hash userId password) ∧
    ∀ before c after, calls = before ++ c :: after →
      HashStored hash (before.foldl (UserManager.behind hash) m) c := by
  have hagrees : ∀ calls : List UserCall, (∀ c ∈ calls, c.Fits) →
      (calls.foldl (UserManager.behind hash) m).Agrees := by
    intro calls hcalls
    induction calls using List.reverseRecOn with
    | nil => exact agrees_of_open hopen
    | append_singleton calls c ih =>
      rw [List.foldl_append]
      exact (ih fun c hc => hcalls c (List.mem_append_left _ hc)).behind (hcalls c (by simp))
  refine ⟨⟨_, (hagrees calls hcalls).reopen, fun _ _ => Iff.rfl⟩, ?_⟩
  rintro before c after rfl
  exact (hagrees before fun c hc => hcalls c (List.mem_append_left _ hc)).hashStored
    (hcalls c (by simp))

private lemma length_padded (s : Bytes) : ((s ++ List.replicate 20 0).take 20).length = 20 := by
  rw [List.length_take, List.length_append, List.length_replicate]
  exact Nat.min_eq_left (Nat.le_add_left 20 s.length)

/-- A user is added, gets another password, and sends its hash back. -/
theorem users_persist_three :
    let hash : Bytes → { d : Bytes // d.length = 20 } :=
      fun s => ⟨(s ++ List.replicate 20 0).take 20, length_padded s⟩
    let config : Bytes → Config := fun s => [.element passwordElementName [.text s]]
    let m := [UserCall.addUser [97] (config [112]) true, .setUserConfig [97] (config [113]) true,
      .setUserConfig [97] (config (toHex (hash [113]))) true].foldl (behind hash) {}
    m.Accepts hash [97] [113] ∧ ∃ m', openConfigFile m.file = .ok m' ∧
      ∀ userId password, m'.Accepts hash userId password ↔ m.Accepts hash userId password := by
  intro hash config m
  refine ⟨⟨ofPassword hash [113], rfl, rfl⟩, ?_⟩
  refine (users_persist (m := {}) (show openConfigFile [] = .ok {} from rfl) fun c hc => ?_).1
  rcases List.mem_cons.1 hc with rfl | hc
  · exact ⟨rfl, rfl, rfl⟩
  · rcases List.mem_cons.1 hc with rfl | hc
    · exact ⟨rfl, rfl⟩
    · obtain rfl := List.mem_singleton.1 hc
      exact ⟨rfl, rfl⟩

/-- The file cannot be written: the running manager accepts the new user, the saved file does
not.  If the name of the user is no XML text, then the saved file cannot be opened. -/
theorem added_user_not_saved :
    let hash : Bytes → { d : Bytes // d.length = 20 } :=
      fun s => ⟨(s ++ List.replicate 20 0).take 20, length_padded s⟩
    let config : Config := [.element passwordElementName [.text [112]]]
    let result := addUser hash {} [97] config false
    (result.2 = .error .writeConfig ∧ result.1.Accepts hash [97] [112] ∧
      openConfigFile result.1.file = .ok {} ∧ ¬ UserManager.Accepts hash {} [97] [112]) ∧
    (addUser hash {} [1] config true).2 = .ok [1] ∧
      openConfigFile (addUser hash {} [1] config true).1.file = .error .readConfig := by
  intro hash config result
  refine ⟨⟨rfl, ⟨ofPassword hash [112], rfl, rfl⟩, rfl, ?_⟩, rfl, rfl⟩
  rintro ⟨user, huser, -⟩
  exact absurd huser (by simp)

end Histories

end UserManager

end PionCore.Platform
