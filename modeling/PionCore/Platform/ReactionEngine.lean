/-
# Permissions of the reaction engine

`ConfigService` carries out the requests about reactors, connections and workspaces that the
permission of the user allows.  The check takes the object of a request from its configuration or
its identifier, while the operation is chosen by the resource, so that a connection can be checked
as a reactor (`restricted_users_confined`).

The model has the reaction engine with an open configuration file.  The code of the plugins is a
parameter.
-/
import Mathlib.Logic.Function.Basic
import PionCore.Platform.ConfigManager

namespace PionCore.Platform

open PionCore.Lib

def reactorElementName : Bytes := ascii "Reactor"
def connectionElementName : Bytes := ascii "Connection"
def pluginElementName : Bytes := ascii "Plugin"
def workspaceElementName : Bytes := ascii "Workspace"
def fromElementName : Bytes := ascii "From"
def toElementName : Bytes := ascii "To"
def unrestrictedElementName : Bytes := ascii "Unrestricted"
def workspaceQualifierElementName : Bytes := ascii "Workspace"

/-- A reactor, with the identifiers of the reactors that it is connected to. -/
structure Reactor where
  type : Bytes
  workspace : Bytes := []
  outputs : List Bytes := []
deriving DecidableEq

structure ReactorConnection where
  connectionId : Bytes
  fromId : Bytes
  toId : Bytes
deriving DecidableEq

/-- `ReactionEngine`: the plugins, the connections and the workspaces of the configuration. -/
structure ReactionEngine where
  plugins : Bytes → Option Reactor
  connections : List ReactorConnection := []
  workspaces : List Bytes := []

/-- How `setConfig` of a plugin ends. -/
inductive SetConfig where
  /-- by an exception, before the options of the base class are set -/
  | stopped
  /-- by an exception in the options of the plugin -/
  | failed
  | configured
deriving DecidableEq

/-- The plugins that can be loaded. -/
structure PluginLibrary where
  opens : Bytes → Bool
  /-- the options of a plugin; every plugin sets those of the base class before its own -/
  setConfig : Bytes → Config → SetConfig

/-- A user, with the children of the `Permission` node for reactors. -/
structure User where
  isAdmin : Bool := false
  permission : Option Config := none

/-- The requests of `ConfigService` that change reactors, connections or workspaces.  Of a body
there is the root element; the body of a request about a workspace is not looked at by the check. -/
inductive ConfigRequest where
  | createReactor (body : XMLNode)
  | updateReactor (id : Bytes) (body : XMLNode)
  /-- a request to delete a reactor, or the reactors of a workspace -/
  | deleteReactors (id : Bytes)
  | createConnection (body : XMLNode)
  | deleteConnection (id : Bytes)
  | createWorkspace
  | updateWorkspace (id : Bytes)
  | deleteWorkspace (id : Bytes)

namespace Reactor

/-- `Reactor::setConfig` and the plugin; `false` is an exception. -/
def setConfig (library : PluginLibrary) (r : Reactor) (config : Config) : Reactor × Bool :=
  match library.setConfig r.type config with
  | .stopped => (r, false)
  | result =>
      match config.getOption workspaceElementName with
      | none => (r, false)
      | some workspace => ({ r with workspace := workspace }, result = .configured)

end Reactor

namespace ReactionEngine

def hasPlugin (e : ReactionEngine) (id : Bytes) : Bool := (e.plugins id).isSome

def hasWorkspace (e : ReactionEngine) (id : Bytes) : Bool := e.workspaces.contains id

/-- The connection with an identifier, which `removalAllowed` and `removeReactorConnection` look
for. -/
def findConnection (e : ReactionEngine) (id : Bytes) : Option ReactorConnection :=
  e.connections.find? fun c => c.connectionId = id

/-! ### Operations -/

/-- `addReactor`, with the identifier from `createUUID`.  A reactor whose configuration fails stays
behind. -/
def addReactor (library : PluginLibrary) (uuid : Bytes) (e : ReactionEngine) (config : Config) :
    ReactionEngine × Option Bytes :=
  match config.getOption pluginElementName with
  | none => (e, none)
  | some type =>
      if e.hasPlugin uuid = true ∨ library.opens type = false then (e, none)
      else
        let x := Reactor.setConfig library { type := type } config
        ({ e with plugins := Function.update e.plugins uuid (some x.1) },
          if x.2 = true then some uuid else none)

/-- `setReactorConfig`; `false` is an exception. -/
def setReactorConfig (library : PluginLibrary) (e : ReactionEngine) (id : Bytes)
    (config : Config) : ReactionEngine × Bool :=
  match e.plugins id with
  | none => (e, false)
  | some r =>
      let x := r.setConfig library config
      ({ e with plugins := Function.update e.plugins id (some x.1) }, x.2)

/-- `addConnectionNoLock`. -/
def addConnection (e : ReactionEngine) (c : ReactorConnection) : Option ReactionEngine :=
  match e.plugins c.fromId, e.plugins c.toId with
  | some r, some _ =>
      if r.outputs.contains c.toId = true then none
      else
        some { e with
          plugins := Function.update e.plugins c.fromId
            (some { r with outputs := r.outputs ++ [c.toId] })
          connections := e.connections ++ [c] }
  | _, _ => none

/-- `addReactorConnection`, with the identifier from `createUUID`. -/
def addReactorConnection (uuid : Bytes) (e : ReactionEngine) (config : Config) :
    Option ReactionEngine :=
  match config.getOption fromElementName, config.getOption toElementName with
  | some fromId, some toId => e.addConnection ⟨uuid, fromId, toId⟩
  | _, _ => none

/-! ### Permissions

A check without a result is left by an exception. -/

/-- The check that both ends of a connection are in workspaces of the permission. -/
def endsAllowed (e : ReactionEngine) (permission : Config) (fromId toId : Bytes) : Option Bool :=
  match e.plugins fromId, e.plugins toId with
  | some source, some sink =>
      some (permission.hasContent workspaceQualifierElementName source.workspace &&
        permission.hasContent workspaceQualifierElementName sink.workspace)
  | _, _ => none

def creationAllowed (e : ReactionEngine) (permission : Option Config) (config : Config) :
    Option Bool :=
  match permission with
  | none => some false
  | some p =>
      if p.hasContent unrestrictedElementName (ascii "true") = true then some true
      else if config = [] then some false
      else if config.hasName pluginElementName = true then
        -- this is taken for a reactor
        if config.getOption pluginElementName = some (ascii "SnifferReactor") then some false
        else (config.getOption workspaceElementName).map
          (p.hasContent workspaceQualifierElementName)
      else if config.hasName fromElementName = true then
        -- this is taken for a connection
        match config.getOption fromElementName, config.getOption toElementName with
        | some fromId, some toId => e.endsAllowed p fromId toId
        | _, _ => none
      else some false

def updateAllowed (e : ReactionEngine) (permission : Option Config) (id : Bytes)
    (config : Config) : Option Bool :=
  match permission with
  | none => some false
  | some p =>
      if p.hasContent unrestrictedElementName (ascii "true") = true then some true
      else
        match e.plugins id with
        | some r =>
            if config = [] then some false
            else if p.hasContent workspaceQualifierElementName r.workspace = true then
              (config.getOption workspaceElementName).map
                (p.hasContent workspaceQualifierElementName)
            else some false
        | none => some (e.hasWorkspace id && p.hasContent workspaceQualifierElementName id)

def removalAllowed (e : ReactionEngine) (permission : Option Config) (id : Bytes) : Option Bool :=
  match permission with
  | none => some false
  | some p =>
      if p.hasContent unrestrictedElementName (ascii "true") = true then some true
      else
        match e.plugins id with
        | some r => some (p.hasContent workspaceQualifierElementName r.workspace)
        | none =>
            if e.hasWorkspace id = true then
              some (p.hasContent workspaceQualifierElementName id)
            else
              match e.findConnection id with
              | none => some false
              | some c => e.endsAllowed p c.fromId c.toId

end ReactionEngine

/-- A check of `UserManager`, for the user of a request. -/
def userAllowed (user : Option User) (check : Option Config → Option Bool) : Option Bool :=
  match user with
  | none => some true
  | some u => if u.isAdmin = true then some true else check u.permission

def createReactorConfig (body : XMLNode) : Option Config :=
  createResourceConfig reactorElementName body

def createConnectionConfig (body : XMLNode) : Option Config :=
  createResourceConfig connectionElementName body

/-- The check that `ConfigService` makes before it carries out a request. -/
def ConfigRequest.allowed (e : ReactionEngine) (user : Option User) : ConfigRequest → Option Bool
  | createReactor body =>
      (createReactorConfig body).bind fun config =>
        userAllowed user fun permission => e.creationAllowed permission config
  | updateReactor id body =>
      (createReactorConfig body).bind fun config =>
        userAllowed user fun permission => e.updateAllowed permission id config
  | createConnection body =>
      (createConnectionConfig body).bind fun config =>
        userAllowed user fun permission => e.creationAllowed permission config
  | createWorkspace => userAllowed user fun permission => e.creationAllowed permission []
  | updateWorkspace id => userAllowed user fun permission => e.updateAllowed permission id []
  | deleteReactors id | deleteConnection id | deleteWorkspace id =>
      userAllowed user fun permission => e.removalAllowed permission id

end PionCore.Platform
