/-
# Connections of reactors

A connection between two reactors is kept three times: in the list of the engine, in the map of the
reactor that it comes from, and in an element of the configuration.  A temporary connection is kept
in a list of its own, and, if events go out to it, in the map of its reactor.  The operations change
one after the other and may be left by an exception between two of them.

Here are the operations of the engine with an open configuration file.
-/
import PionCore.Lib.Runs
import PionCore.Platform.ReactionEngine

namespace PionCore.Platform

open PionCore.Lib

/-- `Reactor::OutputConnection`, with the pointer to a reactor or with a handler alone. -/
inductive OutputConnection where
  | reactor
  | handler
deriving DecidableEq

/-- `Reactor::ConnectionMap`. -/
abbrev ConnectionMap := Bytes → Option OutputConnection

structure TempConnection where
  outputConnection : Bool
  reactorId : Bytes
  connectionId : Bytes
deriving DecidableEq

/-- What `createUUID` returns. -/
structure UUID where
  text : Bytes
  length_eq : text.length = 36

/-- Both ends of a connection. -/
def ReactorConnection.ends (c : ReactorConnection) : Bytes × Bytes := (c.fromId, c.toId)

/-- Does the connection come from the reactor or go to it? -/
def ReactorConnection.involves (c : ReactorConnection) (reactorId : Bytes) : Bool :=
  c.fromId = reactorId || c.toId = reactorId

/-- The engine: the connection maps of its reactors, its two lists, and the elements `Reactor` and
`Connection` of the configuration. -/
structure EngineConnections where
  plugins : Bytes → Option ConnectionMap
  reactorConnections : List ReactorConnection := []
  tempConnections : List TempConnection := []
  reactorNodes : List Bytes := []
  connectionNodes : List ReactorConnection := []

/-- How far `addPlugin` gets with a configuration. -/
inductive AddPlugin where
  /-- there is no type of plugin, or it cannot be loaded -/
  | refused
  /-- an exception of `setConfig` -/
  | failed
  | loaded
deriving DecidableEq

/-- What happens around `removeReactor`. -/
structure Removal where
  isRunning : Bool
  /-- does the running reactor stop, and is this saved? -/
  stops : Bool
  /-- is the file written, the n-th time? -/
  saves : ℕ → Bool
  /-- does the removed-handler return, the n-th time? -/
  handlers : ℕ → Bool

/-- The calls, with what the world does: `saves` is whether the configuration file is written. -/
inductive EngineCall where
  | addReactor (uuid : UUID) (plugin : AddPlugin) (saves : Bool)
  | removeReactor (reactorId : Bytes) (w : Removal)
  | addReactorConnection (uuid : UUID) (fromId toId : Bytes) (saves : Bool)
  /-- the same, with the ends in a configuration -/
  | addConfiguredConnection (uuid : UUID) (config : Config) (saves : Bool)
  | removeReactorConnection (fromId toId : Bytes) (saves : Bool)
  /-- the same, by the identifier of the connection -/
  | removeConnectionById (connectionId : Bytes) (saves : Bool)
  | addTempConnectionIn (reactorId connectionId : Bytes)
  | addTempConnectionOut (reactorId connectionId : Bytes)
  | removeTempConnection (connectionId : Bytes)

namespace EngineConnections

/-- The entry of a connection map. -/
def output (s : EngineConnections) (reactorId key : Bytes) : Option OutputConnection :=
  (s.plugins reactorId).bind fun connections => connections key

def setOutput (s : EngineConnections) (reactorId key : Bytes) (o : Option OutputConnection) :
    EngineConnections :=
  { s with
    plugins := Function.update s.plugins reactorId
      ((s.plugins reactorId).map fun connections => Function.update connections key o) }

/-- `Reactor::addConnection`. -/
def addOutput (s : EngineConnections) (reactorId key : Bytes) (o : OutputConnection) :
    Option EngineConnections :=
  if (s.plugins reactorId).isNone = true ∨ (s.output reactorId key).isSome = true then none
  else some (s.setOutput reactorId key (some o))

def addConnectionNoLock (s : EngineConnections) (c : ReactorConnection) :
    Option EngineConnections :=
  if (s.plugins c.toId).isNone = true then none
  else
    (s.addOutput c.fromId c.toId .reactor).map fun s =>
      { s with reactorConnections := s.reactorConnections ++ [c] }

def removeConnectionNoLock (s : EngineConnections) (reactorId connectionId : Bytes) :
    Option EngineConnections :=
  if (s.output reactorId connectionId).isNone = true then none
  else some (s.setOutput reactorId connectionId none)

/-! The operations that follow give the state they leave, and whether they return. -/

def removeConnectionConfigNoLock (saves : Bool) (s : EngineConnections) (fromId toId : Bytes) :
    EngineConnections × Bool :=
  if (s.connectionNodes.any fun c => c.ends = (fromId, toId)) = true then
    ({ s with connectionNodes := s.connectionNodes.eraseP fun c => c.ends = (fromId, toId) }, saves)
  else (s, false)

def addReactor (s : EngineConnections) (uuid : UUID) (plugin : AddPlugin) (saves : Bool) :
    EngineConnections × Bool :=
  if plugin = .refused ∨ (s.plugins uuid.text).isSome = true then (s, false)
  else
    -- the plugin is there before it gets its configuration
    let loaded := { s with plugins := Function.update s.plugins uuid.text (some fun _ => none) }
    if plugin = .failed then (loaded, false)
    else ({ loaded with reactorNodes := s.reactorNodes ++ [uuid.text] }, saves)

def addReactorConnection (s : EngineConnections) (uuid : UUID) (fromId toId : Bytes)
    (saves : Bool) : EngineConnections × Bool :=
  match s.addConnectionNoLock ⟨uuid.text, fromId, toId⟩ with
  | none => (s, false)
  | some s' =>
      ({ s' with connectionNodes := s'.connectionNodes ++ [⟨uuid.text, fromId, toId⟩] }, saves)

def addConfiguredConnection (s : EngineConnections) (uuid : UUID) (config : Config)
    (saves : Bool) : EngineConnections × Bool :=
  match config.getOption fromElementName, config.getOption toElementName with
  | some fromId, some toId => s.addReactorConnection uuid fromId toId saves
  | _, _ => (s, false)

def removeReactorConnection (s : EngineConnections) (fromId toId : Bytes) (saves : Bool) :
    EngineConnections × Bool :=
  match s.removeConnectionNoLock fromId toId with
  | none => (s, false)
  | some s' =>
      removeConnectionConfigNoLock saves
        { s' with
          reactorConnections := s'.reactorConnections.eraseP fun c => c.ends = (fromId, toId) }
        fromId toId

/-- A connection of the list is removed from its reactor, from the configuration, and at last from
the list. -/
def dropConnection (saves : Bool) (s : EngineConnections) (c : ReactorConnection) :
    EngineConnections × Bool :=
  match s.removeConnectionNoLock c.fromId c.toId with
  | none => (s, false)
  | some s' =>
      let x := removeConnectionConfigNoLock saves s' c.fromId c.toId
      if x.2 = true then
        ({ x.1 with reactorConnections := x.1.reactorConnections.erase c }, true)
      else (x.1, false)

def removeConnectionById (s : EngineConnections) (connectionId : Bytes) (saves : Bool) :
    EngineConnections × Bool :=
  match s.reactorConnections.find? fun c => c.connectionId = connectionId with
  | none => (s, false)
  | some c => s.dropConnection saves c

def addTempConnectionIn (s : EngineConnections) (reactorId connectionId : Bytes) :
    EngineConnections × Bool :=
  if (s.plugins reactorId).isNone = true then (s, false)
  else
    ({ s with tempConnections := s.tempConnections ++ [⟨false, reactorId, connectionId⟩] }, true)

def addTempConnectionOut (s : EngineConnections) (reactorId connectionId : Bytes) :
    EngineConnections × Bool :=
  match s.addOutput reactorId connectionId .handler with
  | none => (s, false)
  | some s' =>
      ({ s' with tempConnections := s'.tempConnections ++ [⟨true, reactorId, connectionId⟩] }, true)

def removeTempConnection (s : EngineConnections) (connectionId : Bytes) :
    EngineConnections × Bool :=
  match s.tempConnections.find? fun t => t.connectionId = connectionId with
  | none => (s, true)
  | some t =>
      let s' := { s with tempConnections := s.tempConnections.erase t }
      if t.reactorId ≠ [] ∧ t.outputConnection = true then
        match s'.removeConnectionNoLock t.reactorId connectionId with
        | none => (s', false)
        | some s'' => (s'', true)
      else (s', true)

/-- `removeReactor`, for the connections of the list that involve the reactor. -/
def dropConnections (saves : ℕ → Bool) :
    ℕ → List ReactorConnection → EngineConnections → EngineConnections × Bool
  | _, [], s => (s, true)
  | n, c :: cs, s =>
      let x := s.dropConnection (saves n) c
      if x.2 = true then dropConnections saves (n + 1) cs x.1 else (x.1, false)

/-- A temporary connection of a reactor that is removed. -/
def dropTempConnection (returns : Bool) (s : EngineConnections) (t : TempConnection) :
    EngineConnections × Bool :=
  match if t.outputConnection = true then s.removeConnectionNoLock t.reactorId t.connectionId
    else some s with
  | none => (s, false)
  | some s' =>
      if returns = true then
        ({ s' with tempConnections := s'.tempConnections.erase t }, true)
      else (s', false)

/-- `removeReactor`, for the temporary connections of the reactor. -/
def dropTempConnections (handlers : ℕ → Bool) :
    ℕ → List TempConnection → EngineConnections → EngineConnections × Bool
  | _, [], s => (s, true)
  | n, t :: ts, s =>
      let x := s.dropTempConnection (handlers n) t
      if x.2 = true then dropTempConnections handlers (n + 1) ts x.1 else (x.1, false)

/-- `PluginConfig::removePlugin`, for a plugin that is there. -/
def removePlugin (saves : Bool) (s : EngineConnections) (reactorId : Bytes) :
    EngineConnections × Bool :=
  let removed := { s with plugins := Function.update s.plugins reactorId none }
  if s.reactorNodes.contains reactorId = true then
    ({ removed with reactorNodes := s.reactorNodes.erase reactorId }, saves)
  else (removed, false)

/-- The connections that `removeReactor` removes from the list. -/
def connectionsOf (s : EngineConnections) (reactorId : Bytes) : List ReactorConnection :=
  s.reactorConnections.filter fun c => c.involves reactorId

def tempConnectionsOf (s : EngineConnections) (reactorId : Bytes) : List TempConnection :=
  s.tempConnections.filter fun t => t.reactorId = reactorId

def removeReactor (s : EngineConnections) (reactorId : Bytes) (w : Removal) :
    EngineConnections × Bool :=
  if (s.plugins reactorId).isNone = true then (s, false)
  -- `stopReactor` looks for the element first
  else if w.isRunning = true ∧ ¬ (s.reactorNodes.contains reactorId = true ∧ w.stops = true) then
    (s, false)
  else
    let x := dropConnections w.saves 0 (s.connectionsOf reactorId) s
    if x.2 = true then
      let y := dropTempConnections w.handlers 0 (x.1.tempConnectionsOf reactorId) x.1
      if y.2 = true then removePlugin (w.saves (s.connectionsOf reactorId).length) y.1 reactorId
      else (y.1, false)
    else (x.1, false)

def call (s : EngineConnections) : EngineCall → EngineConnections × Bool
  | .addReactor uuid plugin saves => s.addReactor uuid plugin saves
  | .removeReactor reactorId w => s.removeReactor reactorId w
  | .addReactorConnection uuid fromId toId saves => s.addReactorConnection uuid fromId toId saves
  | .addConfiguredConnection uuid config saves => s.addConfiguredConnection uuid config saves
  | .removeReactorConnection fromId toId saves => s.removeReactorConnection fromId toId saves
  | .removeConnectionById connectionId saves => s.removeConnectionById connectionId saves
  | .addTempConnectionIn reactorId connectionId => s.addTempConnectionIn reactorId connectionId
  | .addTempConnectionOut reactorId connectionId => s.addTempConnectionOut reactorId connectionId
  | .removeTempConnection connectionId => s.removeTempConnection connectionId

def step (s : EngineConnections) (c : EngineCall) : Option EngineConnections := some (s.call c).1

/-- `openConfigFile`, for the identifiers of the elements `Reactor` and for the elements
`Connection`, when the configuration of every plugin is accepted. -/
def openConfigFile (reactors : List Bytes) (connections : List ReactorConnection) :
    Option EngineConnections :=
  if reactors.contains [] = true ∨ ¬ reactors.Nodup ∨
      (connections.any fun c => c.connectionId = []) = true then none
  else
    connections.foldlM addConnectionNoLock
      { plugins := fun id => if reactors.contains id = true then some fun _ => none else none
        reactorNodes := reactors
        connectionNodes := connections }

end EngineConnections

end PionCore.Platform
