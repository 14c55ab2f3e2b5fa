/-
# Restricted users

What a restricted user can reach with the requests to `ConfigService`.  The checks are first said in
terms of the workspaces of the user, one lemma for each; then a request is confined to these
workspaces unless its object is taken for another one.
-/
import PionCore.Platform.ReactionEngine

namespace PionCore.Platform

open PionCore.Lib

/-- The permission has the workspace among its qualifiers. -/
def User.Permits (u : User) (workspace : Bytes) : Prop :=
  ∃ p, u.permission = some p ∧ p.hasContent workspaceQualifierElementName workspace = true

/-- Neither an administrator nor unrestricted. -/
def User.Restricted (u : User) : Prop :=
  u.isAdmin = false ∧
    ∀ p, u.permission = some p → p.hasContent unrestrictedElementName (ascii "true") = false

/-- The configuration is taken for one of a reactor in a workspace of the user. -/
def User.TakesForReactor (u : User) (config : Config) : Prop :=
  config.hasName pluginElementName = true ∧
    config.getOption pluginElementName ≠ some (ascii "SnifferReactor") ∧
    ∃ workspace, config.getOption workspaceElementName = some workspace ∧ u.Permits workspace

namespace ReactionEngine

/-- The identifier is one of a reactor in a workspace of the user. -/
def PluginWithin (e : ReactionEngine) (u : User) (id : Bytes) : Prop :=
  ∃ r, e.plugins id = some r ∧ u.Permits r.workspace

/-- Both ends of the connection are in workspaces of the user. -/
def JoinsWithin (e : ReactionEngine) (u : User) (fromId toId : Bytes) : Prop :=
  e.PluginWithin u fromId ∧ e.PluginWithin u toId

/-- What the identifier is taken for, a reactor, a workspace or a connection, is within the
workspaces of the user. -/
def NamesWithin (e : ReactionEngine) (u : User) (id : Bytes) : Prop :=
  match e.plugins id with
  | some r => u.Permits r.workspace
  | none =>
      if e.hasWorkspace id = true then u.Permits id
      else ∃ c, e.findConnection id = some c ∧ e.JoinsWithin u c.fromId c.toId

end ReactionEngine

/-- A request that is allowed acts within the workspaces of the user.  An object that is deleted
lies there before; one that is updated, also behind it. -/
def ConfigRequest.Confined (library : PluginLibrary) (uuid : Bytes) (e : ReactionEngine) (u : User)
    (request : ConfigRequest) : Prop :=
  request.allowed e (some u) = some true →
    match request with
    | .createReactor body =>
        ∀ config e' id, createReactorConfig body = some config →
          e.addReactor library uuid config = (e', some id) → e'.PluginWithin u id
    | .updateReactor id body =>
        e.NamesWithin u id ∧ ∀ config r, createReactorConfig body = some config →
          (e.setReactorConfig library id config).1.plugins id = some r → u.Permits r.workspace
    | .deleteReactors id => e.NamesWithin u id
    | .createConnection body =>
        ∀ config e', createConnectionConfig body = some config →
          e.addReactorConnection uuid config = some e' →
          ∃ c, e'.connections = e.connections ++ [c] ∧ e'.JoinsWithin u c.fromId c.toId
    | .deleteConnection id =>
        e.NamesWithin u id ∧
          ∀ c, e.findConnection id = some c → e.JoinsWithin u c.fromId c.toId
    | .createWorkspace => False
    | .updateWorkspace id | .deleteWorkspace id =>
        e.NamesWithin u id ∧ (e.hasWorkspace id = true → u.Permits id)

/-- The object of the request is outside of the workspaces of the user, and is taken for another
one that is within. -/
def ConfigRequest.Mistaken (e : ReactionEngine) (u : User) : ConfigRequest → Prop
  | .createConnection body =>
      ∃ config, createConnectionConfig body = some config ∧ u.TakesForReactor config ∧
        ∃ fromId toId source sink, config.getOption fromElementName = some fromId ∧
          config.getOption toElementName = some toId ∧ e.plugins fromId = some source ∧
          e.plugins toId = some sink ∧ toId ∉ source.outputs ∧
          ¬ (u.Permits source.workspace ∧ u.Permits sink.workspace)
  | .deleteConnection id =>
      (e.PluginWithin u id ∨ e.plugins id = none ∧ e.hasWorkspace id = true ∧ u.Permits id) ∧
        ∃ c, e.findConnection id = some c ∧ ¬ e.JoinsWithin u c.fromId c.toId
  | .deleteWorkspace id => e.PluginWithin u id ∧ e.hasWorkspace id = true ∧ ¬ u.Permits id
  | _ => False

namespace ReactionEngine

variable {library : PluginLibrary} {uuid id workspace fromId toId : Bytes} {e e' : ReactionEngine}
  {u : User} {p config : Config} {body : XMLNode} {r : Reactor}

/-! ### The checks -/

lemma permits_iff (hp : u.permission = some p) :
    u.Permits workspace ↔ p.hasContent workspaceQualifierElementName workspace = true := by
  constructor
  · rintro ⟨q, hq, h⟩
    rwa [Option.some.inj (hp.symm.trans hq)]
  · exact fun h => ⟨p, hp, h⟩

lemma not_permits (hp : u.permission = none) : ¬ u.Permits workspace := by
  rintro ⟨p, hq, -⟩
  cases hp.symm.trans hq

lemma not_joinsWithin (hp : u.permission = none) : ¬ e.JoinsWithin u fromId toId := by
  rintro ⟨⟨r, -, hpermits⟩, -⟩
  exact not_permits hp hpermits

lemma not_unrestricted (hu : u.Restricted) (hp : u.permission = some p) :
    ¬ p.hasContent unrestrictedElementName (ascii "true") = true := by
  rw [hu.2 p hp]
  exact Bool.false_ne_true

lemma pluginWithin_iff (h : e.plugins id = some r) :
    e.PluginWithin u id ↔ u.Permits r.workspace := by
  constructor
  · rintro ⟨s, hs, hpermits⟩
    rwa [Option.some.inj (h.symm.trans hs)]
  · exact fun hpermits => ⟨r, h, hpermits⟩

lemma endsAllowed_iff (hp : u.permission = some p) :
    e.endsAllowed p fromId toId = some true ↔ e.JoinsWithin u fromId toId := by
  rw [endsAllowed]
  cases hsource : e.plugins fromId with
  | none => simp [JoinsWithin, PluginWithin, hsource]
  | some source =>
    cases hsink : e.plugins toId with
    | none => simp [JoinsWithin, PluginWithin, hsink]
    | some sink =>
      rw [JoinsWithin, pluginWithin_iff hsource, pluginWithin_iff hsink, permits_iff hp,
        permits_iff hp]
      simp

/-- A restricted user may create what is taken for a reactor of the permitted workspaces, or has no
plugin and joins reactors there. -/
lemma creationAllowed_iff (hu : u.Restricted) :
    e.creationAllowed u.permission config = some true ↔
      u.TakesForReactor config ∨
        config.hasName pluginElementName = false ∧
          ∃ fromId toId, config.getOption fromElementName = some fromId ∧
            config.getOption toElementName = some toId ∧ e.JoinsWithin u fromId toId := by
  cases hp : u.permission with
  | none =>
    constructor
    · intro h
      cases h
    · rintro (⟨-, -, w, -, hpermits⟩ | ⟨-, f, t, -, -, hjoins⟩)
      · exact absurd hpermits (not_permits hp)
      · exact absurd hjoins (not_joinsWithin hp)
  | some p =>
    rw [creationAllowed, if_neg (not_unrestricted hu hp)]
    by_cases hnil : config = []
    · subst hnil
      simp [User.TakesForReactor, Config.hasName, Config.findByName, Config.getOption]
    rw [if_neg hnil]
    by_cases hplugin : config.hasName pluginElementName = true
    · rw [if_pos hplugin]
      by_cases hsniffer : config.getOption pluginElementName = some (ascii "SnifferReactor")
      · simp [User.TakesForReactor, hsniffer, hplugin]
      · rw [if_neg hsniffer]
        simp [User.TakesForReactor, hsniffer, hplugin, permits_iff hp]
    · rw [if_neg hplugin]
      have hnot : ¬ u.TakesForReactor config := fun h => hplugin h.1
      by_cases hfrom : config.hasName fromElementName = true
      · rw [if_pos hfrom]
        cases hf : config.getOption fromElementName with
        | none => simp [hnot]
        | some f =>
          cases ht : config.getOption toElementName with
          | none => simp [hnot]
          | some t => simp [hnot, hplugin, endsAllowed_iff hp]
      · rw [if_neg hfrom]
        have hnone : ∀ f, config.getOption fromElementName ≠ some f :=
          fun f hf => hfrom (Config.hasName_of_getOption hf)
        simp [hnot, hnone]

/-- A restricted user may update a reactor inside the permitted workspaces, or a workspace among
them. -/
lemma updateAllowed_iff (hu : u.Restricted) :
    e.updateAllowed u.permission id config = some true ↔
      (e.PluginWithin u id ∧ ∃ workspace, config.getOption workspaceElementName = some workspace ∧
        u.Permits workspace) ∨
      e.plugins id = none ∧ e.hasWorkspace id = true ∧ u.Permits id := by
  cases hp : u.permission with
  | none =>
    constructor
    · intro h
      cases h
    · rintro (⟨-, w, -, hpermits⟩ | ⟨-, -, hpermits⟩) <;> exact absurd hpermits (not_permits hp)
  | some p =>
    rw [updateAllowed, if_neg (not_unrestricted hu hp)]
    cases hr : e.plugins id with
    | none => simp [PluginWithin, hr, permits_iff hp]
    | some r =>
      dsimp only
      rw [pluginWithin_iff hr]
      by_cases hnil : config = []
      · subst hnil
        simp [Config.findByName, Config.getOption]
      rw [if_neg hnil]
      by_cases hw : p.hasContent workspaceQualifierElementName r.workspace = true
      · rw [if_pos hw]
        simp [permits_iff hp, hw]
      · rw [if_neg hw]
        simp [permits_iff hp, hw]

/-- A restricted user may remove what is named inside the permitted workspaces. -/
lemma removalAllowed_iff (hu : u.Restricted) :
    e.removalAllowed u.permission id = some true ↔ e.NamesWithin u id := by
  cases hp : u.permission with
  | none =>
    constructor
    · intro h
      cases h
    · intro h
      rw [NamesWithin] at h
      split at h
      · exact absurd h (not_permits hp)
      · split_ifs at h
        · exact absurd h (not_permits hp)
        · obtain ⟨c, -, hjoins⟩ := h
          exact absurd hjoins (not_joinsWithin hp)
  | some p =>
    rw [removalAllowed, NamesWithin, if_neg (not_unrestricted hu hp)]
    cases hr : e.plugins id with
    | some r => simp [permits_iff hp]
    | none =>
      dsimp only
      split_ifs with hw
      · simp [permits_iff hp]
      · cases hc : e.findConnection id with
        | none => simp
        | some c => simp [endsAllowed_iff hp]

/-! ### The operations -/

lemma setConfig_workspace {b : Bool} {s : Reactor} (h : r.setConfig library config = (s, b)) :
    s = r ∧ b = false ∨ config.getOption workspaceElementName = some s.workspace := by
  rw [Reactor.setConfig] at h
  cases hoption : config.getOption workspaceElementName with
  | none =>
    rw [hoption] at h
    left
    cases hresult : library.setConfig r.type config <;> rw [hresult] at h <;> cases h <;>
      exact ⟨rfl, rfl⟩
  | some w =>
    rw [hoption] at h
    cases hresult : library.setConfig r.type config <;> rw [hresult] at h <;> cases h
    · exact Or.inl ⟨rfl, rfl⟩
    · exact Or.inr rfl
    · exact Or.inr rfl

/-- A reactor is created in the workspace of its configuration, which has a plugin. -/
lemma addReactor_some (h : e.addReactor library uuid config = (e', some id)) :
    config.hasName pluginElementName = true ∧
      ∃ r, e'.plugins id = some r ∧ config.getOption workspaceElementName = some r.workspace := by
  rw [addReactor] at h
  cases htype : config.getOption pluginElementName with
  | none =>
    rw [htype] at h
    cases h
  | some type =>
    refine ⟨Config.hasName_of_getOption htype, ?_⟩
    rw [htype] at h
    dsimp only at h
    split_ifs at h with hfails hok
    · cases h
    · cases h
      refine ⟨_, Function.update_self .., ?_⟩
      rcases setConfig_workspace (r := { type := type }) (Prod.eta _).symm with hstopped | hset
      · rw [hok] at hstopped
        cases hstopped.2
      · exact hset
    · cases h

/-- An update leaves the workspace as it is, or takes the one of the configuration. -/
lemma setReactorConfig_plugins {s : Reactor} (hr : e.plugins id = some r)
    (h : (e.setReactorConfig library id config).1.plugins id = some s) :
    s = r ∨ config.getOption workspaceElementName = some s.workspace := by
  rw [setReactorConfig, hr] at h
  dsimp only at h
  rw [Function.update_self, Option.some.injEq] at h
  subst h
  rcases setConfig_workspace (Prod.eta (r.setConfig library config)).symm with hstopped | hset
  · exact Or.inl hstopped.1
  · exact Or.inr hset

lemma setReactorConfig_none (hr : e.plugins id = none) :
    (e.setReactorConfig library id config).1 = e := by
  rw [setReactorConfig, hr]

/-- The reactors keep their workspaces under a new connection. -/
lemma pluginWithin_connect {outputs : List Bytes} (hr : e.plugins fromId = some r)
    (cs : List ReactorConnection) :
    { e with
      plugins := Function.update e.plugins fromId (some { r with outputs := outputs })
      connections := cs }.PluginWithin u id ↔ e.PluginWithin u id := by
  by_cases hid : id = fromId
  · subst hid
    rw [pluginWithin_iff hr]
    exact pluginWithin_iff (r := { r with outputs := outputs }) (Function.update_self ..)
  · simp [PluginWithin, Function.update_of_ne hid]

/-- A connection is added between the reactors that the configuration names, if these are there and
not connected yet. -/
lemma addReactorConnection_iff :
    e.addReactorConnection uuid config = some e' ↔
      ∃ fromId toId source sink, config.getOption fromElementName = some fromId ∧
        config.getOption toElementName = some toId ∧ e.plugins fromId = some source ∧
        e.plugins toId = some sink ∧ toId ∉ source.outputs ∧
        e' = { e with
          plugins := Function.update e.plugins fromId
            (some { source with outputs := source.outputs ++ [toId] })
          connections := e.connections ++ [⟨uuid, fromId, toId⟩] } := by
  rw [addReactorConnection]
  cases hf : config.getOption fromElementName with
  | none => simp
  | some f =>
    cases ht : config.getOption toElementName with
    | none => simp
    | some t =>
      dsimp only
      rw [addConnection]
      cases hsource : e.plugins f with
      | none => simp [hsource]
      | some source =>
        cases hsink : e.plugins t with
        | none => simp [hsink]
        | some sink =>
          dsimp only
          constructor
          · intro h
            split_ifs at h with houtputs
            exact ⟨f, t, source, sink, rfl, rfl, hsource, hsink, by simpa using houtputs,
              (Option.some.inj h).symm⟩
          · rintro ⟨f', t', source', sink', ⟨⟩, ⟨⟩, hsource', hsink', houtputs, rfl⟩
            cases hsource.symm.trans hsource'
            rw [if_neg (by simpa using houtputs)]

/-! ### Requests -/

lemma allowed_restricted (hu : u.Restricted) (check : Option Config → Option Bool) :
    userAllowed (some u) check = check u.permission := by
  simp [userAllowed, hu.1]

lemma namesWithin_of_plugin (h : e.PluginWithin u id) : e.NamesWithin u id := by
  obtain ⟨r, hr, hpermits⟩ := h
  rw [NamesWithin, hr]
  exact hpermits

lemma namesWithin_of_workspace (hid : e.plugins id = none) (h : e.hasWorkspace id = true)
    (hpermits : u.Permits id) : e.NamesWithin u id := by
  rw [NamesWithin, hid]
  dsimp only
  rwa [if_pos h]

/-- A reactor is created in a workspace of the user. -/
lemma createReactor_confined (hu : u.Restricted) :
    (ConfigRequest.createReactor body).Confined library uuid e u := by
  intro hallowed config e' id hconfig hadd
  rw [ConfigRequest.allowed, hconfig, Option.bind_some, allowed_restricted hu,
    creationAllowed_iff hu] at hallowed
  obtain ⟨hplugin, r, hr, hworkspace⟩ := addReactor_some hadd
  rcases hallowed with ⟨-, -, w, hw, hpermits⟩ | ⟨hno, -⟩
  · refine ⟨r, hr, ?_⟩
    rwa [← Option.some.inj (hw.symm.trans hworkspace)]
  · rw [hplugin] at hno
    cases hno

/-- A reactor stays within the workspaces of the user. -/
lemma updateReactor_confined (hu : u.Restricted) :
    (ConfigRequest.updateReactor id body).Confined library uuid e u := by
  intro hallowed
  obtain ⟨config, hconfig, hallowed⟩ := Option.bind_eq_some_iff.1 hallowed
  rw [allowed_restricted hu, updateAllowed_iff hu] at hallowed
  rcases hallowed with ⟨⟨r, hr, hbefore⟩, w, hw, hpermits⟩ | ⟨hid, hworkspace, hpermits⟩
  · refine ⟨namesWithin_of_plugin ⟨r, hr, hbefore⟩, fun config' s hconfig' hs => ?_⟩
    cases hconfig.symm.trans hconfig'
    rcases setReactorConfig_plugins hr hs with rfl | hset
    · exact hbefore
    · rwa [← Option.some.inj (hw.symm.trans hset)]
  · refine ⟨namesWithin_of_workspace hid hworkspace hpermits, fun config' s _ hs => ?_⟩
    rw [setReactorConfig_none hid, hid] at hs
    cases hs

/-- A workspace that is updated is one of the user. -/
lemma updateWorkspace_confined (hu : u.Restricted) :
    (ConfigRequest.updateWorkspace id).Confined library uuid e u := by
  intro hallowed
  rw [ConfigRequest.allowed, allowed_restricted hu, updateAllowed_iff hu] at hallowed
  rcases hallowed with ⟨-, w, hw, -⟩ | ⟨hid, hworkspace, hpermits⟩
  · cases hw
  · exact ⟨namesWithin_of_workspace hid hworkspace hpermits, fun _ => hpermits⟩

/-- Workspaces are not created by restricted users. -/
lemma createWorkspace_confined (hu : u.Restricted) :
    ConfigRequest.createWorkspace.Confined library uuid e u := by
  intro hallowed
  rw [ConfigRequest.allowed, allowed_restricted hu, creationAllowed_iff hu] at hallowed
  rcases hallowed with ⟨hplugin, -⟩ | ⟨-, f, t, hf, -⟩
  · cases hplugin
  · cases hf

/-- A connection is created within the workspaces of the user, unless it is taken for a reactor. -/
lemma createConnection_confined (hu : u.Restricted) :
    (ConfigRequest.createConnection body).Confined library uuid e u ↔
      ¬ (ConfigRequest.createConnection body).Mistaken e u := by
  constructor
  · rintro hconfined ⟨config, hconfig, htakes, f, t, source, sink, hf, ht, hsource, hsink,
      houtputs, houtside⟩
    have hallowed : (ConfigRequest.createConnection body).allowed e (some u) = some true := by
      rw [ConfigRequest.allowed, hconfig, Option.bind_some, allowed_restricted hu,
        creationAllowed_iff hu]
      exact Or.inl htakes
    obtain ⟨c, hc, hjoins⟩ := hconfined hallowed config _ hconfig (addReactorConnection_iff.2
      ⟨f, t, source, sink, hf, ht, hsource, hsink, houtputs, rfl⟩)
    cases List.append_cancel_left hc
    rw [JoinsWithin, pluginWithin_connect hsource, pluginWithin_connect hsource,
      pluginWithin_iff hsource, pluginWithin_iff hsink] at hjoins
    exact houtside hjoins
  · intro hmistaken hallowed config e' hconfig hadd
    rw [ConfigRequest.allowed, hconfig, Option.bind_some, allowed_restricted hu,
      creationAllowed_iff hu] at hallowed
    obtain ⟨f, t, source, sink, hf, ht, hsource, hsink, houtputs, rfl⟩ :=
      addReactorConnection_iff.1 hadd
    refine ⟨_, rfl, ?_⟩
    rw [JoinsWithin, pluginWithin_connect hsource, pluginWithin_connect hsource]
    rcases hallowed with htakes | ⟨-, f', t', hf', ht', hjoins⟩
    · by_contra houtside
      refine hmistaken ⟨config, hconfig, htakes, f, t, source, sink, hf, ht, hsource, hsink,
        houtputs, ?_⟩
      rwa [← pluginWithin_iff hsource, ← pluginWithin_iff hsink]
    · cases hf.symm.trans hf'
      cases ht.symm.trans ht'
      exact hjoins

/-- A connection is deleted within the workspaces of the user, unless its identifier is taken for
one of a reactor or a workspace. -/
lemma deleteConnection_confined (hu : u.Restricted) :
    (ConfigRequest.deleteConnection id).Confined library uuid e u ↔
      ¬ (ConfigRequest.deleteConnection id).Mistaken e u := by
  rw [ConfigRequest.Confined, ConfigRequest.allowed, allowed_restricted hu, removalAllowed_iff hu]
  constructor
  · rintro hconfined ⟨htaken, c, hc, houtside⟩
    refine houtside ((hconfined ?_).2 c hc)
    rcases htaken with hplugin | ⟨hid, hworkspace, hpermits⟩
    · exact namesWithin_of_plugin hplugin
    · exact namesWithin_of_workspace hid hworkspace hpermits
  · intro hmistaken hnames
    refine ⟨hnames, fun c hc => ?_⟩
    by_contra houtside
    rw [NamesWithin] at hnames
    cases hid : e.plugins id with
    | some r =>
      rw [hid] at hnames
      exact hmistaken ⟨Or.inl ⟨r, hid, hnames⟩, c, hc, houtside⟩
    | none =>
      rw [hid] at hnames
      dsimp only at hnames
      split_ifs at hnames with hworkspace
      · exact hmistaken ⟨Or.inr ⟨hid, hworkspace, hnames⟩, c, hc, houtside⟩
      · obtain ⟨c', hc', hjoins⟩ := hnames
        cases hc.symm.trans hc'
        exact houtside hjoins

/-- A workspace that is deleted is one of the user, unless its identifier is taken for one of a
reactor. -/
lemma deleteWorkspace_confined (hu : u.Restricted) :
    (ConfigRequest.deleteWorkspace id).Confined library uuid e u ↔
      ¬ (ConfigRequest.deleteWorkspace id).Mistaken e u := by
  rw [ConfigRequest.Confined, ConfigRequest.allowed, allowed_restricted hu, removalAllowed_iff hu]
  constructor
  · rintro hconfined ⟨hplugin, hworkspace, hnot⟩
    exact hnot ((hconfined (namesWithin_of_plugin hplugin)).2 hworkspace)
  · intro hmistaken hnames
    refine ⟨hnames, fun hworkspace => ?_⟩
    by_contra hnot
    rw [NamesWithin] at hnames
    cases hid : e.plugins id with
    | some r =>
      rw [hid] at hnames
      exact hmistaken ⟨⟨r, hid, hnames⟩, hworkspace, hnot⟩
    | none =>
      rw [hid] at hnames
      dsimp only at hnames
      rw [if_pos hworkspace] at hnames
      exact hnot hnames

/-- **Restricted users.** A request of a restricted user that is allowed acts within the workspaces
of the user, exactly if its object is not taken for another one: a connection whose configuration
has a plugin is checked as a reactor, and an identifier as one of a reactor first. -/
theorem restricted_users_confined (library : PluginLibrary) (uuid : Bytes) (e : ReactionEngine)
    (u : User) (hu : u.Restricted) (request : ConfigRequest) :
    request.Confined library uuid e u ↔ ¬ request.Mistaken e u := by
  cases request with
  | createReactor body => exact iff_of_true (createReactor_confined hu) id
  | updateReactor i body => exact iff_of_true (updateReactor_confined hu) id
  | deleteReactors i =>
    refine iff_of_true (fun hallowed => ?_) id
    rwa [ConfigRequest.allowed, allowed_restricted hu, removalAllowed_iff hu] at hallowed
  | createConnection body => exact createConnection_confined hu
  | deleteConnection i => exact deleteConnection_confined hu
  | createWorkspace => exact iff_of_true (createWorkspace_confined hu) id
  | updateWorkspace i => exact iff_of_true (updateWorkspace_confined hu) id
  | deleteWorkspace i => exact deleteWorkspace_confined hu

/-- A user of the first of two workspaces. -/
def firstUser : User where
  permission := some [.element workspaceQualifierElementName [.text (ascii "1")]]

/-- A reactor in each of two workspaces. -/
def twoWorkspaces : ReactionEngine where
  plugins id :=
    if id = ascii "a" then some { type := ascii "FilterReactor", workspace := ascii "1" }
    else if id = ascii "b" then some { type := ascii "FilterReactor", workspace := ascii "2" }
    else none
  workspaces := [ascii "1", ascii "2"]

/-- Every plugin can be loaded, and takes every configuration. -/
def anyPlugin : PluginLibrary where
  opens _ := true
  setConfig _ _ := .configured

/-- A connection, with further elements before its own. -/
def connectionBody (elements : List XMLNode) (fromId toId : Bytes) : XMLNode :=
  .element rootElementName [.element connectionElementName
    (elements ++ [.element fromElementName [.text fromId], .element toElementName [.text toId]])]

/-- The elements of a reactor in the first workspace. -/
def reactorElements : List XMLNode :=
  [.element pluginElementName [.text (ascii "FilterReactor")],
    .element workspaceElementName [.text (ascii "1")]]

lemma restricted_firstUser : firstUser.Restricted := by
  refine ⟨rfl, ?_⟩
  rintro p ⟨⟩
  decide

theorem restricted_users_confined_first :
    let request := ConfigRequest.createConnection (connectionBody [] (ascii "a") (ascii "a"))
    request.allowed twoWorkspaces (some firstUser) = some true ∧
      request.Confined anyPlugin (ascii "c") twoWorkspaces firstUser := by
  intro request
  refine ⟨by decide +kernel, ?_⟩
  refine (restricted_users_confined _ _ _ _ restricted_firstUser _).2 ?_
  rintro ⟨config, hconfig, htakes, -⟩
  cases hconfig
  exact absurd htakes.1 (by decide)

/-- The elements of a reactor let the user join a reactor of the second workspace. -/
theorem restricted_users_confined_fails :
    firstUser.Restricted ∧
      ¬ (ConfigRequest.createConnection
          (connectionBody reactorElements (ascii "a") (ascii "b"))).Confined
        anyPlugin (ascii "c") twoWorkspaces firstUser := by
  refine ⟨restricted_firstUser, fun h => ?_⟩
  obtain ⟨c, hc, -, r, hr, p, hp, hpermits⟩ := h (by decide +kernel) _ _ rfl rfl
  cases hc
  cases hr
  cases hp
  revert hpermits
  decide

end ReactionEngine

end PionCore.Platform
