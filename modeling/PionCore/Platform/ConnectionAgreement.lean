/-
# The records of connections agree

The operations of the engine keep the list, the maps and the configuration in agreement, and leave
them alone when they throw, as long as nothing gets in their way after the first change.  The
exceptions are a temporary connection that is removed by its ends, a configuration file that cannot
be written, and a reactor that has connections but cannot be removed.
-/
import PionCore.Platform.ReactorConnections

namespace PionCore.Platform.EngineConnections

open PionCore.Lib

variable {s s' : EngineConnections} {reactorId connectionId fromId toId : Bytes}
  {c : ReactorConnection} {t : TempConnection}

/-- The list, the maps and the configuration have the same connections, and the maps the temporary
ones too; no connection is one of a reactor that is not there. -/
structure Agrees (s : EngineConnections) : Prop where
  outputs : ∀ fromId toId, s.output fromId toId = some .reactor ↔
    (fromId, toId) ∈ s.reactorConnections.map ReactorConnection.ends
  temporary : ∀ reactorId connectionId, s.output reactorId connectionId = some .handler ↔
    (⟨true, reactorId, connectionId⟩ : TempConnection) ∈ s.tempConnections
  nodes : ∀ fromId toId, (fromId, toId) ∈ s.connectionNodes.map ReactorConnection.ends ↔
    (fromId, toId) ∈ s.reactorConnections.map ReactorConnection.ends
  present : ∀ c ∈ s.reactorConnections,
    (s.plugins c.fromId).isSome = true ∧ (s.plugins c.toId).isSome = true
  tempPresent : ∀ t ∈ s.tempConnections, (s.plugins t.reactorId).isSome = true

/-- The three are as they were. -/
structure Unchanged (s s' : EngineConnections) : Prop where
  list : s'.reactorConnections = s.reactorConnections
  outputs : ∀ reactorId key, s'.output reactorId key = s.output reactorId key
  nodes : s'.connectionNodes = s.connectionNodes

lemma Unchanged.refl (s : EngineConnections) : Unchanged s s := ⟨rfl, fun _ _ => rfl, rfl⟩

/-- The maps and the lists belong together, and no connection is in a list twice. -/
structure Linked (s : EngineConnections) : Prop where
  outputs : ∀ fromId toId, s.output fromId toId = some .reactor ↔
    (fromId, toId) ∈ s.reactorConnections.map ReactorConnection.ends
  temporary : ∀ reactorId connectionId, s.output reactorId connectionId = some .handler ↔
    (⟨true, reactorId, connectionId⟩ : TempConnection) ∈ s.tempConnections
  present : ∀ c ∈ s.reactorConnections,
    (s.plugins c.fromId).isSome = true ∧ (s.plugins c.toId).isSome = true
  tempPresent : ∀ t ∈ s.tempConnections, (s.plugins t.reactorId).isSome = true
  distinct : (s.reactorConnections.map ReactorConnection.ends).Nodup
  once : (s.tempConnections.filter TempConnection.outputConnection).Nodup
  named : (s.plugins []).isSome = false

/-- What the operations keep. -/
structure Synchronous (s : EngineConnections) : Prop extends Linked s where
  nodes : s.connectionNodes = s.reactorConnections

lemma Synchronous.agrees (h : Synchronous s) : Agrees s where
  outputs := h.outputs
  temporary := h.temporary
  nodes := by
    intro fromId toId
    rw [h.nodes]
  present := h.present
  tempPresent := h.tempPresent

/-! ### The maps -/

lemma isSome_setOutput (o : Option OutputConnection) (id : Bytes) :
    ((s.setOutput reactorId connectionId o).plugins id).isSome = (s.plugins id).isSome := by
  rw [setOutput]
  dsimp only
  by_cases hid : id = reactorId
  · rw [hid, Function.update_self, Option.isSome_map]
  · rw [Function.update_of_ne hid]

lemma output_setOutput (h : (s.plugins reactorId).isSome = true) (o : Option OutputConnection)
    (id key : Bytes) : (s.setOutput reactorId connectionId o).output id key =
      if (id, key) = (reactorId, connectionId) then o else s.output id key := by
  obtain ⟨connections, hc⟩ := Option.isSome_iff_exists.1 h
  rw [output, setOutput]
  dsimp only
  by_cases hid : id = reactorId
  · subst hid
    rw [Function.update_self, hc, Option.map_some, Option.bind_some, Function.update_apply]
    by_cases hkey : key = connectionId
    · rw [if_pos hkey, if_pos (by rw [hkey])]
    · rw [if_neg hkey, if_neg (by simpa using hkey), output, hc, Option.bind_some]
  · rw [Function.update_of_ne hid, if_neg (by simp [hid]), output]

lemma output_setOutput_some (h : (s.plugins reactorId).isSome = true) {q : OutputConnection}
    (id key : Bytes) : (s.setOutput reactorId connectionId (some q)).output id key = some q ↔
      (id, key) = (reactorId, connectionId) ∨ s.output id key = some q := by
  rw [output_setOutput h]
  split_ifs with hid
  · exact iff_of_true rfl (Or.inl hid)
  · exact (or_iff_right hid).symm

lemma output_setOutput_none (h : (s.plugins reactorId).isSome = true) {q : OutputConnection}
    (id key : Bytes) : (s.setOutput reactorId connectionId none).output id key = some q ↔
      (id, key) ≠ (reactorId, connectionId) ∧ s.output id key = some q := by
  rw [output_setOutput h]
  split_ifs with hid
  · exact iff_of_false (by simp) fun hne => hne.1 hid
  · exact (and_iff_right hid).symm

/-- An output is set where there is none of the kind `q`, before and after. -/
lemma output_setOutput_other (h : (s.plugins reactorId).isSome = true)
    {o : Option OutputConnection} {q : OutputConnection} (ho : o ≠ some q)
    (hs : s.output reactorId connectionId ≠ some q) (id key : Bytes) :
    (s.setOutput reactorId connectionId o).output id key = some q ↔
      s.output id key = some q := by
  rw [output_setOutput h]
  split_ifs with hid
  · obtain ⟨rfl, rfl⟩ := Prod.mk.inj hid
    exact iff_of_false ho hs
  · rfl

lemma isSome_of_output {o : OutputConnection} (h : s.output reactorId connectionId = some o) :
    (s.plugins reactorId).isSome = true := by
  rw [output, Option.bind_eq_some_iff] at h
  obtain ⟨connections, hc, -⟩ := h
  rw [hc, Option.isSome_some]

lemma addOutput_eq_some {o : OutputConnection} :
    s.addOutput reactorId connectionId o = some s' ↔ (s.plugins reactorId).isSome = true ∧
      s.output reactorId connectionId = none ∧
      s.setOutput reactorId connectionId (some o) = s' := by
  rw [addOutput]
  cases s.plugins reactorId with
  | none => simp
  | some connections => cases s.output reactorId connectionId <;> simp

lemma addConnectionNoLock_eq_some : s.addConnectionNoLock c = some s' ↔
    (s.plugins c.fromId).isSome = true ∧ (s.plugins c.toId).isSome = true ∧
      s.output c.fromId c.toId = none ∧
      { s.setOutput c.fromId c.toId (some .reactor) with
        reactorConnections := s.reactorConnections ++ [c] } = s' := by
  rw [addConnectionNoLock]
  cases hto : s.plugins c.toId with
  | none => simp
  | some connections =>
    rw [if_neg (by simp), Option.map_eq_some_iff]
    constructor
    · rintro ⟨u, hu, rfl⟩
      obtain ⟨hfrom, hnone, rfl⟩ := addOutput_eq_some.1 hu
      exact ⟨hfrom, rfl, hnone, rfl⟩
    · rintro ⟨hfrom, -, hnone, rfl⟩
      exact ⟨_, addOutput_eq_some.2 ⟨hfrom, hnone, rfl⟩, rfl⟩

lemma removeConnectionNoLock_of_output {o : OutputConnection}
    (h : s.output reactorId connectionId = some o) :
    s.removeConnectionNoLock reactorId connectionId =
      some (s.setOutput reactorId connectionId none) := by
  rw [removeConnectionNoLock, h]
  rfl

lemma removeConnectionNoLock_of_none (h : s.output reactorId connectionId = none) :
    s.removeConnectionNoLock reactorId connectionId = none := by
  rw [removeConnectionNoLock, h]
  rfl

/-! ### The lists -/

section Lists

variable {l : List ReactorConnection}

/-- The connection with two given ends is the only one. -/
lemma eq_of_ends (hl : (l.map ReactorConnection.ends).Nodup) {c d : ReactorConnection} (hc : c ∈ l)
    (hd : d ∈ l) (h : c.ends = d.ends) : c = d :=
  List.inj_on_of_nodup_map hl hc hd h

lemma mem_ends_erase (hl : (l.map ReactorConnection.ends).Nodup) (hc : c ∈ l) (p : Bytes × Bytes) :
    p ∈ (l.erase c).map ReactorConnection.ends ↔
      p ≠ c.ends ∧ p ∈ l.map ReactorConnection.ends := by
  have hnodup : l.Nodup := hl.of_map
  constructor
  · intro hp
    obtain ⟨d, hd, rfl⟩ := List.mem_map.1 hp
    obtain ⟨hne, hmem⟩ := hnodup.mem_erase_iff.1 hd
    exact ⟨fun h => hne (eq_of_ends hl hmem hc h), List.mem_map.2 ⟨d, hmem, rfl⟩⟩
  · rintro ⟨hne, hp⟩
    obtain ⟨d, hd, rfl⟩ := List.mem_map.1 hp
    exact List.mem_map.2 ⟨d, hnodup.mem_erase_iff.2 ⟨fun h => hne (by rw [h]), hd⟩, rfl⟩

/-- To look for the ends of a connection is to look for the connection. -/
lemma eraseP_ends (hl : (l.map ReactorConnection.ends).Nodup) (hc : c ∈ l) :
    (l.eraseP fun d => d.ends = c.ends) = l.erase c := by
  induction l with
  | nil => rfl
  | cons d l ih =>
    by_cases hdc : d = c
    · rw [hdc, List.erase_cons_head, List.eraseP_cons_of_pos (by simp)]
    · have hmem : c ∈ l := (List.mem_cons.1 hc).resolve_left fun h => hdc h.symm
      have hends : d.ends ≠ c.ends := by
        intro h
        exact hdc (eq_of_ends hl List.mem_cons_self hc h)
      rw [List.erase_cons_tail (by simpa using hdc), List.eraseP_cons_of_neg (by simpa using hends),
        ih (List.nodup_cons.1 hl).2 hmem]

end Lists

/-! ### What one connection does -/

lemma Linked.add (h : Linked s) (hadd : s.addConnectionNoLock c = some s') : Linked s' := by
  obtain ⟨hfrom, hto, hnone, rfl⟩ := addConnectionNoLock_eq_some.1 hadd
  constructor
  · intro f k
    rw [List.map_append, List.mem_append, List.map_singleton, List.mem_singleton, ← h.outputs f k]
    exact (output_setOutput_some hfrom f k).trans or_comm
  · intro r k
    exact (output_setOutput_other hfrom (by simp) (by simp [hnone]) r k).trans (h.temporary r k)
  · intro d hd
    rw [isSome_setOutput, isSome_setOutput]
    rcases List.mem_append.1 hd with hd | hd
    · exact h.present d hd
    · rw [List.mem_singleton.1 hd]
      exact ⟨hfrom, hto⟩
  · intro t ht
    rw [isSome_setOutput]
    exact h.tempPresent t ht
  · rw [List.map_append, List.map_singleton]
    refine List.nodup_append.2 ⟨h.distinct, List.nodup_singleton _, ?_⟩
    rintro a ha b hb rfl
    rw [List.mem_singleton.1 hb, ReactorConnection.ends, ← h.outputs, hnone] at ha
    cases ha
  · exact h.once
  · rw [isSome_setOutput]
    exact h.named

lemma Linked.drop (h : Linked s) (hc : c ∈ s.reactorConnections) :
    Linked { s.setOutput c.fromId c.toId none with
      reactorConnections := s.reactorConnections.erase c } := by
  have hsome := (h.outputs c.fromId c.toId).2 (List.mem_map_of_mem hc)
  have hfrom := isSome_of_output hsome
  constructor
  · intro f k
    rw [mem_ends_erase h.distinct hc, ← h.outputs f k]
    exact output_setOutput_none hfrom f k
  · intro r k
    exact (output_setOutput_other hfrom (by simp) (by simp [hsome]) r k).trans (h.temporary r k)
  · intro d hd
    rw [isSome_setOutput, isSome_setOutput]
    exact h.present d (List.mem_of_mem_erase hd)
  · intro t ht
    rw [isSome_setOutput]
    exact h.tempPresent t ht
  · exact h.distinct.sublist ((List.erase_sublist).map _)
  · exact h.once
  · rw [isSome_setOutput]
    exact h.named

lemma Linked.addTempIn (h : Linked s) (hreactor : (s.plugins reactorId).isSome = true) :
    Linked { s with
      tempConnections := s.tempConnections ++ [⟨false, reactorId, connectionId⟩] } where
  outputs := h.outputs
  temporary := by
    intro r k
    rw [List.mem_append, List.mem_singleton]
    exact (h.temporary r k).trans (or_iff_left (by simp)).symm
  present := h.present
  tempPresent := by
    intro t ht
    rcases List.mem_append.1 ht with ht | ht
    · exact h.tempPresent t ht
    · rw [List.mem_singleton.1 ht]
      exact hreactor
  distinct := h.distinct
  once := by
    rw [List.filter_append, List.filter_singleton]
    simpa using h.once
  named := h.named

lemma Linked.addTempOut (h : Linked s) (hreactor : (s.plugins reactorId).isSome = true)
    (hnone : s.output reactorId connectionId = none) :
    Linked { s.setOutput reactorId connectionId (some .handler) with
      tempConnections := s.tempConnections ++ [⟨true, reactorId, connectionId⟩] } := by
  constructor
  · intro f k
    exact (output_setOutput_other hreactor (by simp) (by simp [hnone]) f k).trans (h.outputs f k)
  · intro r k
    rw [List.mem_append, List.mem_singleton, ← h.temporary]
    refine (output_setOutput_some hreactor r k).trans (or_comm.trans (or_congr_right ?_))
    simp
  · intro d hd
    rw [isSome_setOutput, isSome_setOutput]
    exact h.present d hd
  · intro t ht
    rw [isSome_setOutput]
    rcases List.mem_append.1 ht with ht | ht
    · exact h.tempPresent t ht
    · rw [List.mem_singleton.1 ht]
      exact hreactor
  · exact h.distinct
  · rw [List.filter_append, List.filter_singleton]
    refine List.nodup_append.2 ⟨h.once, List.nodup_singleton _, ?_⟩
    rintro a ha b hb rfl
    have hmem := (List.mem_filter.1 ha).1
    rw [List.mem_singleton.1 hb, ← h.temporary, hnone] at hmem
    cases hmem
  · rw [isSome_setOutput]
    exact h.named

/-- The state without the output of a temporary connection. -/
def withoutOutput (s : EngineConnections) (t : TempConnection) : EngineConnections :=
  if t.outputConnection = true then s.setOutput t.reactorId t.connectionId none else s

lemma isSome_withoutOutput (id : Bytes) :
    ((s.withoutOutput t).plugins id).isSome = (s.plugins id).isSome := by
  rw [withoutOutput]
  split_ifs
  · exact isSome_setOutput none id
  · rfl

/-- An output connection that is removed is not in the list any more. -/
lemma mem_erase_temp (h : (s.tempConnections.filter TempConnection.outputConnection).Nodup)
    {u : TempConnection} (hu : u.outputConnection = true) :
    u ∈ s.tempConnections.erase t ↔ u ≠ t ∧ u ∈ s.tempConnections := by
  have hfilter (l : List TempConnection) : u ∈ l ↔ u ∈ l.filter TempConnection.outputConnection :=
    (List.mem_filter.trans (and_iff_left hu)).symm
  rw [hfilter, ← List.erase_filter, h.mem_erase_iff, ← hfilter]

lemma Linked.dropTemp (h : Linked s) (ht : t ∈ s.tempConnections) :
    Linked { s.withoutOutput t with tempConnections := s.tempConnections.erase t } := by
  have hlist : (s.withoutOutput t).reactorConnections = s.reactorConnections := by
    rw [withoutOutput]
    split_ifs <;> rfl
  have hfrom := h.tempPresent t ht
  have hsome (ho : t.outputConnection = true) :
      s.output t.reactorId t.connectionId = some .handler :=
    (h.temporary _ _).2 (ho ▸ ht)
  constructor
  · intro f k
    rw [hlist, ← h.outputs]
    change (s.withoutOutput t).output f k = _ ↔ _
    rw [withoutOutput]
    split_ifs with ho
    · exact output_setOutput_other hfrom (by simp) (by simp [hsome ho]) f k
    · rfl
  · intro r k
    rw [mem_erase_temp h.once rfl, ← h.temporary]
    change (s.withoutOutput t).output r k = _ ↔ _
    rw [withoutOutput]
    split_ifs with ho
    · refine (output_setOutput_none hfrom r k).trans (and_congr_left' ?_)
      rw [not_iff_not]
      obtain ⟨o, id, key⟩ := t
      obtain rfl : o = true := ho
      simp
    · refine (and_iff_right ?_).symm
      rintro rfl
      exact ho rfl
  · intro d hd
    rw [isSome_withoutOutput, isSome_withoutOutput]
    exact h.present d (hlist ▸ hd)
  · intro u hu
    rw [isSome_withoutOutput]
    exact h.tempPresent u (List.mem_of_mem_erase hu)
  · rw [hlist]
    exact h.distinct
  · exact h.once.sublist (List.erase_sublist.filter _)
  · rw [isSome_withoutOutput]
    exact h.named

/-! ### Removing connections -/

lemma Synchronous.mem_nodes (h : Synchronous s) (hc : c ∈ s.reactorConnections) :
    c ∈ s.connectionNodes := by
  rw [h.nodes]
  exact hc

/-- In the configuration a connection of the list is found and removed. -/
lemma removeConnectionConfigNoLock_of_mem (saves : Bool)
    (hnodup : (s.connectionNodes.map ReactorConnection.ends).Nodup) (hc : c ∈ s.connectionNodes) :
    removeConnectionConfigNoLock saves s c.fromId c.toId =
      ({ s with connectionNodes := s.connectionNodes.erase c }, saves) := by
  have hany : (s.connectionNodes.any fun d => d.ends = (c.fromId, c.toId)) = true :=
    List.any_eq_true.2 ⟨c, hc, by simp [ReactorConnection.ends]⟩
  rw [removeConnectionConfigNoLock, if_pos hany]
  congr 2
  exact eraseP_ends hnodup hc

/-- The state without a connection. -/
def without (s : EngineConnections) (c : ReactorConnection) : EngineConnections :=
  { s.setOutput c.fromId c.toId none with
    reactorConnections := s.reactorConnections.erase c
    connectionNodes := s.connectionNodes.erase c }

lemma Synchronous.without (h : Synchronous s) (hc : c ∈ s.reactorConnections) :
    Synchronous (s.without c) where
  toLinked :=
    have hdrop := h.toLinked.drop hc
    ⟨hdrop.outputs, hdrop.temporary, hdrop.present, hdrop.tempPresent, hdrop.distinct, hdrop.once,
      hdrop.named⟩
  nodes := by
    rw [EngineConnections.without]
    dsimp only
    rw [h.nodes]

/-- A connection of the list is removed from its reactor and the configuration, and from the list if
the file is written. -/
lemma Synchronous.dropConnection_eq (h : Synchronous s) (hc : c ∈ s.reactorConnections)
    (saves : Bool) : s.dropConnection saves c =
      if saves = true then (s.without c, true)
      else ({ s.setOutput c.fromId c.toId none with
        connectionNodes := s.connectionNodes.erase c }, false) := by
  have hsome := (h.outputs c.fromId c.toId).2 (List.mem_map_of_mem hc)
  have hconfig := removeConnectionConfigNoLock_of_mem (s := s.setOutput c.fromId c.toId none) saves
    (h.nodes ▸ h.distinct) (h.mem_nodes hc)
  rw [dropConnection, removeConnectionNoLock_of_output hsome]
  dsimp only
  rw [hconfig]
  cases saves <;> rfl

/-- The configuration has lost a connection of the list. -/
lemma Synchronous.not_agrees_of_erase (h : Synchronous s) (s' : EngineConnections)
    (hc : c ∈ s.reactorConnections) (hlist : s'.reactorConnections = s.reactorConnections)
    (hnodes : s'.connectionNodes = s.connectionNodes.erase c) : ¬ Agrees s' := by
  intro hagrees
  have hmem : c.ends ∈ s'.connectionNodes.map ReactorConnection.ends :=
    (hagrees.nodes c.fromId c.toId).2 (hlist ▸ List.mem_map_of_mem hc)
  rw [hnodes, mem_ends_erase (h.nodes ▸ h.distinct) (h.mem_nodes hc)] at hmem
  exact hmem.1 rfl

/-! #### The connections of a reactor -/

/-- Without exceptions all of the connections are removed. -/
lemma Synchronous.dropConnections (saves : ℕ → Bool) {l : List ReactorConnection} {n : ℕ}
    (h : Synchronous s) (hl : l.Subperm s.reactorConnections)
    (hsaves : ∀ i < l.length, saves (n + i) = true) :
    ∃ s', dropConnections saves n l s = (s', true) ∧ Synchronous s' ∧
      s'.reactorConnections = s.reactorConnections.diff l ∧
      s'.tempConnections = s.tempConnections ∧ s'.reactorNodes = s.reactorNodes ∧
      ∀ id, (s'.plugins id).isSome = (s.plugins id).isSome := by
  induction l generalizing s n with
  | nil => exact ⟨s, rfl, h, rfl, rfl, rfl, fun _ => rfl⟩
  | cons c l ih =>
    have hc := hl.subset List.mem_cons_self
    have hrest := hl.erase c
    rw [List.erase_cons_head] at hrest
    have hn : saves n = true := hsaves 0 (by simp)
    obtain ⟨s', hs', hsync, hlist, htemps, hreactors, hplugins⟩ :=
      ih (n := n + 1) (h.without hc) hrest fun i hi => by
        have hi' := hsaves (i + 1) (by simpa using hi)
        rwa [show n + 1 + i = n + (i + 1) by omega]
    refine ⟨s', ?_, hsync, ?_, htemps, hreactors, fun id => ?_⟩
    · rw [EngineConnections.dropConnections, h.dropConnection_eq hc, hn]
      exact hs'
    · rw [hlist, List.diff_cons]
      rfl
    · rw [hplugins]
      exact isSome_setOutput none id

/-- With an exception the records do not agree any more. -/
lemma Synchronous.dropConnections_fails (saves : ℕ → Bool) {l : List ReactorConnection} {n : ℕ}
    (h : Synchronous s) (hl : l.Subperm s.reactorConnections)
    (hsaves : ¬ ∀ i < l.length, saves (n + i) = true) :
    (EngineConnections.dropConnections saves n l s).2 = false ∧
      ¬ Agrees (EngineConnections.dropConnections saves n l s).1 := by
  induction l generalizing s n with
  | nil => exact absurd (fun i hi => absurd hi (by simp)) hsaves
  | cons c l ih =>
    have hc := hl.subset List.mem_cons_self
    rw [EngineConnections.dropConnections, h.dropConnection_eq hc]
    cases hn : saves n with
    | false => exact ⟨rfl, h.not_agrees_of_erase _ hc rfl rfl⟩
    | true =>
      have hrest := hl.erase c
      rw [List.erase_cons_head] at hrest
      refine ih (h.without hc) hrest fun hall => hsaves fun i hi => ?_
      cases i with
      | zero => exact hn
      | succ i =>
        rw [show n + (i + 1) = n + 1 + i by omega]
        exact hall i (by simpa using hi)

/-! #### The temporary connections of a reactor -/

/-- The state without a temporary connection. -/
def withoutTemp (s : EngineConnections) (t : TempConnection) : EngineConnections :=
  { s.withoutOutput t with tempConnections := s.tempConnections.erase t }

lemma withoutOutput_fields : (s.withoutOutput t).reactorConnections = s.reactorConnections ∧
    (s.withoutOutput t).tempConnections = s.tempConnections ∧
    (s.withoutOutput t).reactorNodes = s.reactorNodes ∧
    (s.withoutOutput t).connectionNodes = s.connectionNodes := by
  rw [withoutOutput]
  split_ifs <;> exact ⟨rfl, rfl, rfl, rfl⟩

lemma Synchronous.withoutTemp (h : Synchronous s) (ht : t ∈ s.tempConnections) :
    Synchronous (s.withoutTemp t) where
  toLinked := h.toLinked.dropTemp ht
  nodes := by
    obtain ⟨hlist, -, -, hnodes⟩ := withoutOutput_fields (s := s) (t := t)
    exact hnodes.trans (h.nodes.trans hlist.symm)

lemma Synchronous.dropTempConnection_eq (h : Synchronous s) (ht : t ∈ s.tempConnections)
    (returns : Bool) : s.dropTempConnection returns t =
      if returns = true then (s.withoutTemp t, true) else (s.withoutOutput t, false) := by
  have hremove : (if t.outputConnection = true then
      s.removeConnectionNoLock t.reactorId t.connectionId else some s) =
      some (s.withoutOutput t) := by
    rw [withoutOutput]
    split_ifs with ho
    · exact removeConnectionNoLock_of_output ((h.temporary _ _).2 (ho ▸ ht))
    · rfl
  rw [dropTempConnection, hremove]
  dsimp only
  rw [EngineConnections.withoutTemp, withoutOutput_fields.2.1]

/-- The temporary connections are removed up to a handler that throws. -/
lemma Synchronous.dropTempConnections (handlers : ℕ → Bool) {l : List TempConnection} {n : ℕ}
    (h : Synchronous s) (hl : l.Subperm s.tempConnections) :
    ∃ k u, (∀ i < k, handlers (n + i) = true) ∧ Synchronous u ∧
      u.reactorConnections = s.reactorConnections ∧
      u.tempConnections = s.tempConnections.diff (l.take k) ∧ u.reactorNodes = s.reactorNodes ∧
      (∀ id, (u.plugins id).isSome = (s.plugins id).isSome) ∧
      (k = l.length ∧ dropTempConnections handlers n l s = (u, true) ∨
        ∃ t, l[k]? = some t ∧ t ∈ u.tempConnections ∧ handlers (n + k) = false ∧
          dropTempConnections handlers n l s = (u.withoutOutput t, false)) := by
  induction l generalizing s n with
  | nil => exact ⟨0, s, by simp, h, rfl, rfl, rfl, fun _ => rfl, Or.inl ⟨rfl, rfl⟩⟩
  | cons t l ih =>
    have ht := hl.subset List.mem_cons_self
    rw [EngineConnections.dropTempConnections, h.dropTempConnection_eq ht]
    cases hn : handlers n with
    | false =>
      exact ⟨0, s, by simp, h, rfl, rfl, rfl, fun _ => rfl, Or.inr ⟨t, rfl, ht, hn, rfl⟩⟩
    | true =>
      have hrest := hl.erase t
      rw [List.erase_cons_head] at hrest
      obtain ⟨k, u, hk, hsync, hlist, htemps, hreactors, hplugins, hend⟩ :=
        ih (n := n + 1) (h.withoutTemp ht) hrest
      have hfields := withoutOutput_fields (s := s) (t := t)
      refine ⟨k + 1, u, ?_, hsync, hlist.trans hfields.1, ?_, hreactors.trans hfields.2.2.1,
        fun id => (hplugins id).trans (isSome_withoutOutput id), ?_⟩
      · intro i hi
        cases i with
        | zero => exact hn
        | succ i =>
          rw [show n + (i + 1) = n + 1 + i by omega]
          exact hk i (by omega)
      · rw [htemps, List.take_succ_cons, List.diff_cons]
        rfl
      · rw [List.length_cons, List.getElem?_cons_succ, show n + (k + 1) = n + 1 + k by omega]
        refine hend.imp ?_ ?_
        · rintro ⟨hlen, hresult⟩
          exact ⟨by omega, hresult⟩
        · exact fun hfail => hfail

/-! ### The calls -/

/-- The call keeps the records together, and leaves them alone if it throws. -/
def Good (s : EngineConnections) (x : EngineConnections × Bool) : Prop :=
  Synchronous x.1 ∧ (x.2 = false → Unchanged s x.1)

/-- What is to be said about a call. -/
def Fair (s : EngineConnections) (x : EngineConnections × Bool) : Prop :=
  Agrees x.1 ∧ (x.2 = false → Unchanged s x.1)

lemma Good.fair {x : EngineConnections × Bool} (h : Good s x) : Fair s x := ⟨h.1.agrees, h.2⟩

lemma Synchronous.good_same (h : Synchronous s) (b : Bool) : Good s (s, b) :=
  ⟨h, fun _ => Unchanged.refl s⟩

lemma Synchronous.addReactor (h : Synchronous s) (uuid : UUID) (plugin : AddPlugin)
    (saves : Bool) : Good s (s.addReactor uuid plugin saves) := by
  rw [EngineConnections.addReactor]
  by_cases hrefused : plugin = .refused ∨ (s.plugins uuid.text).isSome = true
  · rw [if_pos hrefused]
    exact h.good_same false
  rw [if_neg hrefused]
  have hnone : s.plugins uuid.text = none := by
    rw [not_or, Bool.not_eq_true, Option.isSome_eq_false_iff, Option.isNone_iff_eq_none]
      at hrefused
    exact hrefused.2
  have hnamed : ([] : Bytes) ≠ uuid.text := by
    intro hnil
    have hlen := uuid.length_eq
    rw [← hnil] at hlen
    cases hlen
  -- the new reactor has no connections
  have houtput (nodes : List Bytes) (id key : Bytes) : output { s with
      plugins := Function.update s.plugins uuid.text (some fun _ => none)
      reactorNodes := nodes } id key = s.output id key := by
    rw [output, output]
    dsimp only
    by_cases hid : id = uuid.text
    · rw [hid, Function.update_self, hnone]
      rfl
    · rw [Function.update_of_ne hid]
  have hplugins (id : Bytes) (hid : (s.plugins id).isSome = true) :
      (Function.update s.plugins uuid.text (some fun _ => none) id).isSome = true := by
    by_cases heq : id = uuid.text
    · rw [heq, Function.update_self, Option.isSome_some]
    · rwa [Function.update_of_ne heq]
  have hgood (nodes : List Bytes) (b : Bool) : Good s ({ s with
      plugins := Function.update s.plugins uuid.text (some fun _ => none)
      reactorNodes := nodes }, b) := by
    refine ⟨⟨⟨?_, ?_, ?_, ?_, h.distinct, h.once, ?_⟩, h.nodes⟩, fun _ => ⟨rfl, houtput nodes, rfl⟩⟩
    · intro f k
      rw [houtput nodes]
      exact h.outputs f k
    · intro r k
      rw [houtput nodes]
      exact h.temporary r k
    · exact fun c hc => ⟨hplugins _ (h.present c hc).1, hplugins _ (h.present c hc).2⟩
    · exact fun t ht => hplugins _ (h.tempPresent t ht)
    · dsimp only
      rw [Function.update_of_ne hnamed]
      exact h.named
  dsimp only
  split_ifs
  · exact hgood s.reactorNodes false
  · exact hgood _ saves

/-- Can the two reactors be connected? -/
def Connectable (s : EngineConnections) (fromId toId : Bytes) : Prop :=
  (s.plugins fromId).isSome = true ∧ (s.plugins toId).isSome = true ∧ s.output fromId toId = none

lemma addConnectionNoLock_eq_none :
    s.addConnectionNoLock c = none ↔ ¬ Connectable s c.fromId c.toId := by
  rw [← not_iff_not, not_not, ← ne_eq, Option.ne_none_iff_exists']
  constructor
  · rintro ⟨s', hs'⟩
    obtain ⟨hfrom, hto, hnone, -⟩ := addConnectionNoLock_eq_some.1 hs'
    exact ⟨hfrom, hto, hnone⟩
  · rintro ⟨hfrom, hto, hnone⟩
    exact ⟨_, addConnectionNoLock_eq_some.2 ⟨hfrom, hto, hnone, rfl⟩⟩

lemma Synchronous.addReactorConnection (h : Synchronous s) (uuid : UUID) {saves : Bool}
    (hsaves : saves = true ∨ ¬ Connectable s fromId toId) :
    Good s (s.addReactorConnection uuid fromId toId saves) := by
  rw [EngineConnections.addReactorConnection]
  cases hadd : s.addConnectionNoLock ⟨uuid.text, fromId, toId⟩ with
  | none => exact h.good_same false
  | some s' =>
    have hconnect : Connectable s fromId toId := by
      by_contra hnot
      rw [addConnectionNoLock_eq_none.2 hnot] at hadd
      cases hadd
    obtain rfl : saves = true := hsaves.resolve_right fun hnot => hnot hconnect
    have hlinked := h.toLinked.add hadd
    obtain ⟨-, -, -, rfl⟩ := addConnectionNoLock_eq_some.1 hadd
    refine ⟨⟨⟨hlinked.outputs, hlinked.temporary, hlinked.present, hlinked.tempPresent,
      hlinked.distinct, hlinked.once, hlinked.named⟩, ?_⟩, fun hfalse => by cases hfalse⟩
    dsimp only
    exact congrArg (· ++ [_]) h.nodes

/-- The connection is in the list also when the file cannot be written. -/
lemma saves_of_fair_addReactorConnection {uuid : UUID} {saves : Bool}
    (hfair : Fair s (s.addReactorConnection uuid fromId toId saves)) :
    saves = true ∨ ¬ Connectable s fromId toId := by
  rw [EngineConnections.addReactorConnection] at hfair
  cases hadd : s.addConnectionNoLock ⟨uuid.text, fromId, toId⟩ with
  | none => exact Or.inr (addConnectionNoLock_eq_none.1 hadd)
  | some s' =>
    rw [hadd] at hfair
    obtain ⟨-, -, -, rfl⟩ := addConnectionNoLock_eq_some.1 hadd
    refine Or.inl ?_
    by_contra hfalse
    have hlist := (hfair.2 (Bool.not_eq_true _ ▸ hfalse)).list
    simp at hlist

/-- The removal of a connection by its ends, before the file is written. -/
lemma Synchronous.removeReactorConnection_eq (h : Synchronous s) (hc : c ∈ s.reactorConnections)
    (saves : Bool) :
    s.removeReactorConnection c.fromId c.toId saves = (s.without c, saves) := by
  have hsome := (h.outputs c.fromId c.toId).2 (List.mem_map_of_mem hc)
  have hlist : (s.reactorConnections.eraseP fun d => d.ends = (c.fromId, c.toId)) =
      s.reactorConnections.erase c := eraseP_ends h.distinct hc
  have hconfig := removeConnectionConfigNoLock_of_mem saves
    (s := { s.setOutput c.fromId c.toId none with
      reactorConnections := s.reactorConnections.erase c })
    (h.nodes ▸ h.distinct) (h.mem_nodes hc)
  rw [removeReactorConnection, removeConnectionNoLock_of_output hsome]
  dsimp only
  rw [show (s.setOutput c.fromId c.toId none).reactorConnections = s.reactorConnections from rfl,
    hlist]
  exact hconfig

/-- A temporary connection has no element in the configuration. -/
lemma Synchronous.removeReactorConnection_handler (h : Synchronous s)
    (hhandler : s.output fromId toId = some .handler) (saves : Bool) :
    (s.removeReactorConnection fromId toId saves).2 = false ∧
      (s.removeReactorConnection fromId toId saves).1.output fromId toId = none := by
  have hnodes : (s.connectionNodes.any fun c => c.ends = (fromId, toId)) = false := by
    rw [List.any_eq_false]
    intro c hc hends
    rw [h.nodes] at hc
    have hreactor := (h.outputs fromId toId).2 (List.mem_map.2 ⟨c, hc, of_decide_eq_true hends⟩)
    rw [hhandler] at hreactor
    cases hreactor
  rw [removeReactorConnection, removeConnectionNoLock_of_output hhandler]
  dsimp only
  have hany : ¬ ((s.setOutput fromId toId none).connectionNodes.any
      fun c => c.ends = (fromId, toId)) = true := ne_true_of_eq_false hnodes
  rw [removeConnectionConfigNoLock]
  dsimp only
  rw [if_neg hany]
  refine ⟨rfl, ?_⟩
  exact (output_setOutput (isSome_of_output hhandler) none fromId toId).trans (if_pos rfl)

lemma Synchronous.removeReactorConnection_good (h : Synchronous s) {saves : Bool}
    (hgood : s.output fromId toId = none ∨ s.output fromId toId = some .reactor ∧ saves = true) :
    Good s (s.removeReactorConnection fromId toId saves) := by
  rcases hgood with hnone | ⟨hsome, rfl⟩
  · rw [removeReactorConnection, removeConnectionNoLock_of_none hnone]
    exact h.good_same false
  · obtain ⟨c, hc, hends⟩ := List.mem_map.1 ((h.outputs fromId toId).1 hsome)
    obtain ⟨rfl, rfl⟩ := Prod.mk.inj hends
    rw [h.removeReactorConnection_eq hc]
    exact ⟨h.without hc, fun hfalse => by cases hfalse⟩

lemma Synchronous.of_fair_removeReactorConnection (h : Synchronous s) {saves : Bool}
    (hfair : Fair s (s.removeReactorConnection fromId toId saves)) :
    s.output fromId toId = none ∨ s.output fromId toId = some .reactor ∧ saves = true := by
  rcases hout : s.output fromId toId with _ | _ | _
  · exact Or.inl rfl
  · refine Or.inr ⟨rfl, ?_⟩
    obtain ⟨c, hc, hends⟩ := List.mem_map.1 ((h.outputs fromId toId).1 hout)
    obtain ⟨rfl, rfl⟩ := Prod.mk.inj hends
    rw [h.removeReactorConnection_eq hc] at hfair
    by_contra hfalse
    have hlist : s.reactorConnections.erase c = s.reactorConnections :=
      (hfair.2 (Bool.not_eq_true _ ▸ hfalse)).list
    have hlen := List.length_erase_of_mem hc
    have hpos := List.length_pos_of_mem hc
    rw [hlist] at hlen
    omega
  · obtain ⟨hthrows, hnone⟩ := h.removeReactorConnection_handler hout saves
    rw [(hfair.2 hthrows).outputs, hout] at hnone
    cases hnone

lemma Synchronous.removeConnectionById (h : Synchronous s) {saves : Bool}
    (hgood : saves = true ∨ ∀ c ∈ s.reactorConnections, c.connectionId ≠ connectionId) :
    Good s (s.removeConnectionById connectionId saves) := by
  rw [EngineConnections.removeConnectionById]
  cases hfind : s.reactorConnections.find? fun c => c.connectionId = connectionId with
  | none => exact h.good_same false
  | some c =>
    have hc := List.mem_of_find?_eq_some hfind
    have hid := List.find?_some hfind
    obtain rfl : saves = true := hgood.resolve_right fun hall => hall c hc (of_decide_eq_true hid)
    dsimp only
    rw [h.dropConnection_eq hc]
    exact ⟨h.without hc, fun hfalse => by cases hfalse⟩

lemma Synchronous.of_fair_removeConnectionById (h : Synchronous s) {saves : Bool}
    (hfair : Fair s (s.removeConnectionById connectionId saves)) :
    saves = true ∨ ∀ c ∈ s.reactorConnections, c.connectionId ≠ connectionId := by
  rw [EngineConnections.removeConnectionById] at hfair
  cases hfind : s.reactorConnections.find? fun c => c.connectionId = connectionId with
  | none =>
    refine Or.inr fun c hc hid => ?_
    have hnot := List.find?_eq_none.1 hfind c hc
    simp [hid] at hnot
  | some c =>
    refine Or.inl ?_
    by_contra hfalse
    have hc := List.mem_of_find?_eq_some hfind
    rw [hfind] at hfair
    dsimp only at hfair
    rw [h.dropConnection_eq hc, if_neg hfalse] at hfair
    exact h.not_agrees_of_erase { s.setOutput c.fromId c.toId none with
      connectionNodes := s.connectionNodes.erase c } hc rfl rfl hfair.1

lemma Synchronous.addTempConnectionIn (h : Synchronous s) :
    Good s (s.addTempConnectionIn reactorId connectionId) := by
  rw [EngineConnections.addTempConnectionIn]
  split_ifs with hnone
  · exact h.good_same false
  · rw [Bool.not_eq_true, Option.isNone_eq_false_iff] at hnone
    exact ⟨⟨h.toLinked.addTempIn hnone, h.nodes⟩, fun hfalse => by cases hfalse⟩

lemma Synchronous.addTempConnectionOut (h : Synchronous s) :
    Good s (s.addTempConnectionOut reactorId connectionId) := by
  rw [EngineConnections.addTempConnectionOut]
  cases hadd : s.addOutput reactorId connectionId .handler with
  | none => exact h.good_same false
  | some s' =>
    obtain ⟨hreactor, hnone, rfl⟩ := addOutput_eq_some.1 hadd
    exact ⟨⟨h.toLinked.addTempOut hreactor hnone, h.nodes⟩, fun hfalse => by cases hfalse⟩

lemma Synchronous.removeTempConnection (h : Synchronous s) :
    Good s (s.removeTempConnection connectionId) := by
  rw [EngineConnections.removeTempConnection]
  cases hfind : s.tempConnections.find? fun t => t.connectionId = connectionId with
  | none => exact h.good_same true
  | some t =>
    have ht := List.mem_of_find?_eq_some hfind
    have hid := List.find?_some hfind
    obtain rfl : t.connectionId = connectionId := of_decide_eq_true hid
    have hnamed : t.reactorId ≠ [] := by
      intro hnil
      have hsome := h.tempPresent t ht
      rw [hnil, h.named] at hsome
      cases hsome
    have hsync := h.withoutTemp ht
    rw [EngineConnections.withoutTemp, withoutOutput] at hsync
    dsimp only
    split_ifs with ho
    · have hout : output { s with tempConnections := s.tempConnections.erase t } t.reactorId
          t.connectionId = some .handler := (h.temporary _ _).2 (ho.2 ▸ ht)
      rw [removeConnectionNoLock_of_output hout]
      rw [if_pos ho.2] at hsync
      exact ⟨hsync, fun hfalse => by cases hfalse⟩
    · rw [if_neg fun hout => ho ⟨hnamed, hout⟩] at hsync
      exact ⟨hsync, fun hfalse => by cases hfalse⟩

/-! ### Removing a reactor -/

/-- The maps follow from the lists. -/
lemma Synchronous.output_eq {u : EngineConnections} (h : Synchronous s) (hu : Synchronous u)
    (hlist : u.reactorConnections = s.reactorConnections)
    (htemps : ∀ t : TempConnection, t.outputConnection = true →
      (t ∈ u.tempConnections ↔ t ∈ s.tempConnections)) (id key : Bytes) :
    u.output id key = s.output id key := by
  ext o
  cases o with
  | reactor => rw [hu.outputs, h.outputs, hlist]
  | handler =>
    rw [hu.temporary, h.temporary]
    exact htemps _ rfl

/-- A reactor without connections is removed. -/
lemma Synchronous.removePlugin (h : Synchronous s) (saves : Bool) (reactorId : Bytes)
    (hlist : ∀ c ∈ s.reactorConnections, c.involves reactorId = false)
    (htemps : ∀ t ∈ s.tempConnections, t.reactorId ≠ reactorId) :
    Good s (s.removePlugin saves reactorId) := by
  have hnone (key : Bytes) : s.output reactorId key = none := by
    rcases hout : s.output reactorId key with _ | _ | _
    · rfl
    · obtain ⟨c, hc, hends⟩ := List.mem_map.1 ((h.outputs reactorId key).1 hout)
      obtain ⟨rfl, rfl⟩ := Prod.mk.inj hends
      have hnot := hlist c hc
      simp [ReactorConnection.involves] at hnot
    · exact absurd rfl (htemps _ ((h.temporary reactorId key).1 hout))
  have houtput (nodes : List Bytes) (id key : Bytes) : output { s with
      plugins := Function.update s.plugins reactorId none
      reactorNodes := nodes } id key = s.output id key := by
    by_cases hid : id = reactorId
    · rw [hid, hnone, output]
      dsimp only
      rw [Function.update_self, Option.bind_none]
    · rw [output, output]
      dsimp only
      rw [Function.update_of_ne hid]
  have hplugins {id : Bytes} (hid : id ≠ reactorId) (hsome : (s.plugins id).isSome = true) :
      (Function.update s.plugins reactorId none id).isSome = true := by
    rwa [Function.update_of_ne hid]
  have hgood (nodes : List Bytes) (b : Bool) : Good s ({ s with
      plugins := Function.update s.plugins reactorId none
      reactorNodes := nodes }, b) := by
    refine ⟨⟨⟨?_, ?_, ?_, ?_, h.distinct, h.once, ?_⟩, h.nodes⟩, fun _ => ⟨rfl, houtput nodes, rfl⟩⟩
    · intro f k
      rw [houtput nodes]
      exact h.outputs f k
    · intro r k
      rw [houtput nodes]
      exact h.temporary r k
    · intro c hc
      have hnot := hlist c hc
      rw [ReactorConnection.involves, Bool.or_eq_false_iff, decide_eq_false_iff_not,
        decide_eq_false_iff_not] at hnot
      exact ⟨hplugins hnot.1 (h.present c hc).1, hplugins hnot.2 (h.present c hc).2⟩
    · exact fun t ht => hplugins (htemps t ht) (h.tempPresent t ht)
    · dsimp only
      by_cases hnil : [] = reactorId
      · rw [hnil, Function.update_self]
        rfl
      · rw [Function.update_of_ne hnil]
        exact h.named
  rw [EngineConnections.removePlugin]
  dsimp only
  split_ifs
  · exact hgood _ saves
  · exact hgood s.reactorNodes false

/-- `removeReactor` stops in front of the first change. -/
def Refused (s : EngineConnections) (reactorId : Bytes) (w : Removal) : Prop :=
  (s.plugins reactorId).isNone = true ∨
    w.isRunning = true ∧ ¬ (s.reactorNodes.contains reactorId = true ∧ w.stops = true)

/-- Nothing gets in the way of `removeReactor`: the file is written each time, the handlers return,
and the reactor has its element. -/
def Completes (s : EngineConnections) (reactorId : Bytes) (w : Removal) : Prop :=
  (∀ i ≤ (s.connectionsOf reactorId).length, w.saves i = true) ∧
    (∀ i < (s.tempConnectionsOf reactorId).length, w.handlers i = true) ∧
    s.reactorNodes.contains reactorId = true

/-- `removeReactor` comes to no connection that events go out to: the reactor has none in the list,
and before each of the temporary ones there is a handler that throws. -/
def Untouched (s : EngineConnections) (reactorId : Bytes) (w : Removal) : Prop :=
  s.connectionsOf reactorId = [] ∧
    ∀ i t, (s.tempConnectionsOf reactorId)[i]? = some t → t.outputConnection = true →
      ∃ j < i, w.handlers j = false

lemma mem_diff_filter {α : Type*} [DecidableEq α] {l : List α} {p : α → Bool} {x : α}
    (hx : x ∈ l.diff (l.filter p)) : p x = false := by
  by_contra hp
  have hcount := List.count_pos_iff.2 hx
  rw [List.count_diff, List.count_filter (Bool.not_eq_false _ ▸ hp)] at hcount
  omega

lemma not_involves_of_mem (h : c ∈ s.reactorConnections.diff (s.connectionsOf reactorId)) :
    c.involves reactorId = false :=
  mem_diff_filter (p := fun d : ReactorConnection => d.involves reactorId) h

lemma reactorId_ne_of_mem (h : t ∈ s.tempConnections.diff (s.tempConnectionsOf reactorId)) :
    t.reactorId ≠ reactorId :=
  of_decide_eq_false
    (mem_diff_filter (p := fun u : TempConnection => decide (u.reactorId = reactorId)) h)

/-- An output connection is in the list only once. -/
lemma Synchronous.not_mem_diff (h : Synchronous s) {l : List TempConnection}
    (ht : t.outputConnection = true) (hl : t ∈ l) : t ∉ s.tempConnections.diff l := by
  intro hmem
  have hcount := List.count_pos_iff.2 hmem
  have honce := List.nodup_iff_count_le_one.1 h.once t
  have hin := List.count_pos_iff.2 hl
  rw [List.count_filter ht] at honce
  rw [List.count_diff] at hcount
  omega

lemma connectionsOf_subperm (s : EngineConnections) (reactorId : Bytes) :
     (s.connectionsOf reactorId).Subperm s.reactorConnections :=
  (List.filter_sublist).subperm

lemma tempConnectionsOf_subperm (s : EngineConnections) (reactorId : Bytes) :
    (s.tempConnectionsOf reactorId).Subperm s.tempConnections :=
  (List.filter_sublist).subperm

/-- The maps are as before if no output connection has been removed. -/
lemma Synchronous.unchanged {u : EngineConnections} (h : Synchronous s) (hu : Synchronous u)
    (hlist : u.reactorConnections = s.reactorConnections) {l : List TempConnection}
    (htemps : u.tempConnections = s.tempConnections.diff l)
    (hl : ∀ t ∈ l, t.outputConnection = false) : Unchanged s u where
  list := hlist
  outputs := h.output_eq hu hlist fun t ht => by
    rw [htemps]
    refine ⟨fun hmem => List.diff_subset _ _ hmem, fun hmem => List.mem_diff_of_mem hmem ?_⟩
    intro hin
    rw [hl t hin] at ht
    cases ht
  nodes := by rw [hu.nodes, h.nodes, hlist]

lemma Unchanged.trans {u : EngineConnections} (h : Unchanged s s') (hu : Unchanged s' u) :
    Unchanged s u :=
  ⟨hu.list.trans h.list, fun id key => (hu.outputs id key).trans (h.outputs id key),
    hu.nodes.trans h.nodes⟩

/-- If the connections are where they were then none was removed. -/
lemma connectionsOf_eq_nil
    (h : s.reactorConnections.diff (s.connectionsOf reactorId) = s.reactorConnections) :
    s.connectionsOf reactorId = [] := by
  rw [List.eq_nil_iff_forall_not_mem]
  intro c hc
  obtain ⟨hmem, hinvolves⟩ := List.mem_filter.1 hc
  rw [← h] at hmem
  have hnot := not_involves_of_mem hmem
  rw [hinvolves] at hnot
  cases hnot

/-- If the maps are where they were then no output connection was removed. -/
lemma Synchronous.input_of_unchanged {u : EngineConnections} (h : Synchronous s)
    (hu : Agrees u) {l : List TempConnection}
    (htemps : u.tempConnections = s.tempConnections.diff l) (hunchanged : Unchanged s u)
    (hl : t ∈ l) (ht : t ∈ s.tempConnections) : t.outputConnection = false := by
  by_contra ho
  rw [Bool.not_eq_false] at ho
  have hold := (h.temporary t.reactorId t.connectionId).2 (ho ▸ ht)
  rw [← hunchanged.outputs, hu.temporary, htemps, ← ho] at hold
  exact h.not_mem_diff ho hl hold

lemma removeReactor_of_refused {w : Removal} (h : Refused s reactorId w) :
    s.removeReactor reactorId w = (s, false) := by
  rw [EngineConnections.removeReactor]
  by_cases hnone : (s.plugins reactorId).isNone = true
  · rw [if_pos hnone]
  · rw [if_neg hnone, if_pos (h.resolve_left hnone)]

lemma removeReactor_of_not_refused {w : Removal} (h : ¬ Refused s reactorId w) :
    s.removeReactor reactorId w =
      let x := dropConnections w.saves 0 (s.connectionsOf reactorId) s
      if x.2 = true then
        let y := dropTempConnections w.handlers 0 (x.1.tempConnectionsOf reactorId) x.1
        if y.2 = true then removePlugin (w.saves (s.connectionsOf reactorId).length) y.1 reactorId
        else (y.1, false)
      else (x.1, false) := by
  obtain ⟨hnone, hstop⟩ := not_or.1 h
  rw [EngineConnections.removeReactor, if_neg hnone, if_neg hstop]

/-- How `removeReactor` ends once the connections of the list are removed: at a handler that throws,
or with the plugin. -/
lemma Synchronous.removeReactor_cases (h : Synchronous s) {w : Removal}
    (hrefused : ¬ Refused s reactorId w)
    (hsaves : ∀ i < (s.connectionsOf reactorId).length, w.saves i = true) :
    ∃ k u, (∀ i < k, w.handlers i = true) ∧ Synchronous u ∧
      u.reactorConnections = s.reactorConnections.diff (s.connectionsOf reactorId) ∧
      u.tempConnections = s.tempConnections.diff ((s.tempConnectionsOf reactorId).take k) ∧
      u.reactorNodes = s.reactorNodes ∧
      (k = (s.tempConnectionsOf reactorId).length ∧ s.removeReactor reactorId w =
          u.removePlugin (w.saves (s.connectionsOf reactorId).length) reactorId ∨
        ∃ t, (s.tempConnectionsOf reactorId)[k]? = some t ∧ t ∈ u.tempConnections ∧
          w.handlers k = false ∧ s.removeReactor reactorId w = (u.withoutOutput t, false)) := by
  obtain ⟨v, hv, hvsync, hvlist, hvtemps, hvnodes, -⟩ :=
    h.dropConnections w.saves (n := 0) (connectionsOf_subperm s reactorId)
      (by simpa only [Nat.zero_add] using hsaves)
  have htempsOf : v.tempConnectionsOf reactorId = s.tempConnectionsOf reactorId := by
    rw [tempConnectionsOf, tempConnectionsOf, hvtemps]
  obtain ⟨k, u, hk, husync, hulist, hutemps, hunodes, -, hend⟩ :=
    hvsync.dropTempConnections w.handlers (n := 0) (tempConnectionsOf_subperm v reactorId)
  rw [htempsOf] at hutemps hend
  rw [hvtemps] at hutemps
  simp only [Nat.zero_add] at hk hend
  rw [removeReactor_of_not_refused hrefused, hv]
  dsimp only
  rw [if_pos rfl, htempsOf]
  refine ⟨k, u, hk, husync, hulist.trans hvlist, hutemps, hunodes.trans hvnodes, ?_⟩
  refine hend.imp ?_ ?_
  · rintro ⟨hlen, hresult⟩
    rw [hresult]
    exact ⟨hlen, rfl⟩
  · rintro ⟨t, hget, hmem, hthrows, hresult⟩
    rw [hresult]
    exact ⟨t, hget, hmem, hthrows, rfl⟩

lemma Synchronous.removeReactor (h : Synchronous s) {w : Removal}
    (hgood : Refused s reactorId w ∨ Completes s reactorId w ∨ Untouched s reactorId w) :
    Good s (s.removeReactor reactorId w) := by
  by_cases hrefused : Refused s reactorId w
  · rw [removeReactor_of_refused hrefused]
    exact h.good_same false
  replace hgood := hgood.resolve_left hrefused
  have hsaves : ∀ i < (s.connectionsOf reactorId).length, w.saves i = true := by
    intro i hi
    rcases hgood with hall | hnil
    · exact hall.1 i hi.le
    · rw [hnil.1] at hi
      cases hi
  obtain ⟨k, u, hk, hu, hlist, htemps, hnodes, hend⟩ := h.removeReactor_cases hrefused hsaves
  -- what has been removed before a throw are input connections
  have hunchanged (huntouched : Untouched s reactorId w) : Unchanged s u := by
    rw [huntouched.1, List.diff_nil] at hlist
    refine h.unchanged hu hlist htemps fun t ht => ?_
    obtain ⟨i, hi, rfl⟩ := List.mem_take_iff_getElem.1 ht
    by_contra ho
    obtain ⟨j, hj, hthrows⟩ := huntouched.2 i _ (List.getElem?_eq_getElem (by omega))
      (Bool.not_eq_false _ ▸ ho)
    rw [hk j (by omega)] at hthrows
    cases hthrows
  rcases hend with ⟨hlen, hresult⟩ | ⟨t, hget, -, hthrows, hresult⟩
  · rw [hresult]
    have hplugin := hu.removePlugin (w.saves (s.connectionsOf reactorId).length) reactorId
      (fun c hc => not_involves_of_mem (hlist ▸ hc))
      (fun t ht => by
        rw [htemps, hlen, List.take_length] at ht
        exact reactorId_ne_of_mem ht)
    refine ⟨hplugin.1, fun hfalse => ?_⟩
    rcases hgood with hall | huntouched
    · rw [EngineConnections.removePlugin] at hfalse
      dsimp only at hfalse
      rw [hnodes, if_pos hall.2.2, hall.1 _ le_rfl] at hfalse
      cases hfalse
    · exact (hunchanged huntouched).trans (hplugin.2 hfalse)
  · rcases hgood with hall | huntouched
    · have hlt : k < (s.tempConnectionsOf reactorId).length := (List.getElem?_eq_some_iff.1 hget).1
      rw [hall.2.1 k hlt] at hthrows
      cases hthrows
    · have hinput : ¬ t.outputConnection = true := by
        intro ho
        obtain ⟨j, hj, hfalse⟩ := huntouched.2 k t hget ho
        rw [hk j hj] at hfalse
        cases hfalse
      rw [hresult, withoutOutput, if_neg hinput]
      exact ⟨hu, fun _ => hunchanged huntouched⟩

lemma Synchronous.of_fair_removeReactor (h : Synchronous s) {w : Removal}
    (hfair : Fair s (s.removeReactor reactorId w)) :
    Refused s reactorId w ∨ Completes s reactorId w ∨ Untouched s reactorId w := by
  by_cases hrefused : Refused s reactorId w
  · exact Or.inl hrefused
  refine Or.inr ?_
  have hsaves : ∀ i < (s.connectionsOf reactorId).length, w.saves i = true := by
    by_contra hnot
    obtain ⟨hthrows, hdisagree⟩ := h.dropConnections_fails w.saves (n := 0)
      (connectionsOf_subperm s reactorId) (by simpa only [Nat.zero_add] using hnot)
    rw [removeReactor_of_not_refused hrefused] at hfair
    dsimp only at hfair
    rw [if_neg (ne_true_of_eq_false hthrows)] at hfair
    exact hdisagree hfair.1
  obtain ⟨k, u, hk, hu, hlist, htemps, hnodes, hend⟩ := h.removeReactor_cases hrefused hsaves
  -- if the three are as before then no output connection has been removed
  have huntouched (hagrees : Agrees u) (hunchanged : Unchanged s u)
      (hlast : ∀ t, (s.tempConnectionsOf reactorId)[k]? = some t →
        t.outputConnection = false ∧ w.handlers k = false) : Untouched s reactorId w := by
    refine ⟨connectionsOf_eq_nil (hlist.symm.trans hunchanged.list), fun i t hi ht => ?_⟩
    have hmem := List.mem_of_getElem? hi
    rcases lt_trichotomy i k with hlt | rfl | hgt
    · have htake : t ∈ (s.tempConnectionsOf reactorId).take k :=
        List.mem_of_getElem? ((List.getElem?_take_of_lt hlt).trans hi)
      rw [h.input_of_unchanged hagrees htemps hunchanged htake (List.mem_filter.1 hmem).1] at ht
      cases ht
    · rw [(hlast t hi).1] at ht
      cases ht
    · have hk' : k < (s.tempConnectionsOf reactorId).length :=
        hgt.trans (List.getElem?_eq_some_iff.1 hi).1
      exact ⟨k, hgt, (hlast _ (List.getElem?_eq_getElem hk')).2⟩
  rcases hend with ⟨hlen, hresult⟩ | ⟨t, hget, hmem, hthrows, hresult⟩
  · have hplugin := hu.removePlugin (w.saves (s.connectionsOf reactorId).length) reactorId
      (fun c hc => not_involves_of_mem (hlist ▸ hc))
      (fun t ht => by
        rw [htemps, hlen, List.take_length] at ht
        exact reactorId_ne_of_mem ht)
    rw [hresult] at hfair
    by_cases hreturns :
        (u.removePlugin (w.saves (s.connectionsOf reactorId).length) reactorId).2 = true
    · rw [EngineConnections.removePlugin] at hreturns
      dsimp only at hreturns
      split_ifs at hreturns with hnode
      refine Or.inl ⟨fun i hi => ?_, fun i hi => hk i (hlen ▸ hi), hnodes ▸ hnode⟩
      rcases hi.lt_or_eq with hlt | rfl
      · exact hsaves i hlt
      · exact hreturns
    · rw [Bool.not_eq_true] at hreturns
      have hsame := hplugin.2 hreturns
      have hchanged := hfair.2 hreturns
      refine Or.inr (huntouched hu.agrees ⟨hsame.list.symm.trans hchanged.list, fun id key => ?_,
        hsame.nodes.symm.trans hchanged.nodes⟩ fun t ht => ?_)
      · rw [← hsame.outputs, hchanged.outputs]
      · rw [hlen, List.getElem?_eq_none le_rfl] at ht
        cases ht
  · rw [hresult] at hfair
    by_cases ho : t.outputConnection = true
    · -- the list still has the connection, the map has not
      rw [withoutOutput, if_pos ho] at hfair
      obtain ⟨o, id, key⟩ := t
      obtain rfl : o = true := ho
      have hhandler := (hfair.1.temporary id key).2 hmem
      have hid := isSome_of_output ((hu.temporary id key).2 hmem)
      exact absurd rfl ((output_setOutput_none hid id key).1 hhandler).1
    · rw [withoutOutput, if_neg ho] at hfair
      refine Or.inr (huntouched hu.agrees (hfair.2 rfl) fun t' ht' => ?_)
      obtain rfl : t = t' := Option.some.inj (hget.symm.trans ht')
      exact ⟨Bool.not_eq_true _ ▸ ho, hthrows⟩

/-! ### Runs -/

/-- The condition on a call: it does not remove a temporary connection by its ends, it writes the
file if it changes a connection, and if it removes a reactor then it either comes to the end, or to
no connection at all. -/
def Undisturbed (s : EngineConnections) : EngineCall → Prop
  | .addReactorConnection _ fromId toId saves => saves = true ∨ ¬ Connectable s fromId toId
  | .addConfiguredConnection _ config saves =>
      ∀ fromId toId, config.getOption fromElementName = some fromId →
        config.getOption toElementName = some toId → saves = true ∨ ¬ Connectable s fromId toId
  | .removeReactorConnection fromId toId saves =>
      s.output fromId toId = none ∨ s.output fromId toId = some .reactor ∧ saves = true
  | .removeConnectionById connectionId saves =>
      saves = true ∨ ∀ c ∈ s.reactorConnections, c.connectionId ≠ connectionId
  | .removeReactor reactorId w =>
      Refused s reactorId w ∨ Completes s reactorId w ∨ Untouched s reactorId w
  | .addReactor _ _ _ | .addTempConnectionIn _ _ | .addTempConnectionOut _ _
  | .removeTempConnection _ => True

lemma Synchronous.call (h : Synchronous s) {c : EngineCall} (hc : Undisturbed s c) :
    Good s (s.call c) := by
  cases c with
  | addReactor uuid plugin saves => exact h.addReactor uuid plugin saves
  | removeReactor reactorId w => exact h.removeReactor hc
  | addReactorConnection uuid fromId toId saves => exact h.addReactorConnection uuid hc
  | addConfiguredConnection uuid config saves =>
    rw [EngineConnections.call, addConfiguredConnection]
    cases hfrom : config.getOption fromElementName with
    | none => exact h.good_same false
    | some fromId =>
      cases hto : config.getOption toElementName with
      | none => exact h.good_same false
      | some toId => exact h.addReactorConnection uuid (hc fromId toId hfrom hto)
  | removeReactorConnection fromId toId saves => exact h.removeReactorConnection_good hc
  | removeConnectionById connectionId saves => exact h.removeConnectionById hc
  | addTempConnectionIn reactorId connectionId => exact h.addTempConnectionIn
  | addTempConnectionOut reactorId connectionId => exact h.addTempConnectionOut
  | removeTempConnection connectionId => exact h.removeTempConnection

lemma Synchronous.of_fair_call (h : Synchronous s) {c : EngineCall} (hfair : Fair s (s.call c)) :
    Undisturbed s c := by
  cases c with
  | addReactor uuid plugin saves => trivial
  | removeReactor reactorId w => exact h.of_fair_removeReactor hfair
  | addReactorConnection uuid fromId toId saves => exact saves_of_fair_addReactorConnection hfair
  | addConfiguredConnection uuid config saves =>
    intro fromId toId hfrom hto
    rw [EngineConnections.call, addConfiguredConnection, hfrom, hto] at hfair
    exact saves_of_fair_addReactorConnection hfair
  | removeReactorConnection fromId toId saves => exact h.of_fair_removeReactorConnection hfair
  | removeConnectionById connectionId saves => exact h.of_fair_removeConnectionById hfair
  | addTempConnectionIn reactorId connectionId => trivial
  | addTempConnectionOut reactorId connectionId => trivial
  | removeTempConnection connectionId => trivial

/-! #### The configuration file -/

/-- While the connections of the file are added the configuration has them all. -/
lemma foldlM_addConnectionNoLock {l : List ReactorConnection} (h : Linked s)
    (hl : l.foldlM addConnectionNoLock s = some s') :
    Linked s' ∧ s'.reactorConnections = s.reactorConnections ++ l ∧
      s'.connectionNodes = s.connectionNodes := by
  induction l generalizing s with
  | nil =>
    obtain rfl : s = s' := Option.some.inj hl
    exact ⟨h, (List.append_nil _).symm, rfl⟩
  | cons c l ih =>
    rw [List.foldlM_cons] at hl
    obtain ⟨u, hu, hl⟩ := Option.bind_eq_some_iff.1 hl
    obtain ⟨hlinked, hlist, hnodes⟩ := ih (h.add hu) hl
    obtain ⟨-, -, -, rfl⟩ := addConnectionNoLock_eq_some.1 hu
    exact ⟨hlinked, hlist.trans (List.append_assoc _ [c] l), hnodes⟩

lemma synchronous_openConfigFile {reactors : List Bytes} {connections : List ReactorConnection}
    (h : openConfigFile reactors connections = some s) : Synchronous s := by
  rw [openConfigFile] at h
  split_ifs at h with hbad
  have houtput (id key : Bytes) : output
      { plugins := fun id => if reactors.contains id = true then some fun _ => none else none
        reactorNodes := reactors
        connectionNodes := connections } id key = none := by
    rw [output]
    dsimp only
    split_ifs <;> rfl
  obtain ⟨hlinked, hlist, hnodes⟩ := foldlM_addConnectionNoLock (by
    constructor
    · intro f k
      rw [houtput]
      exact iff_of_false (by simp) (by simp)
    · intro r k
      rw [houtput]
      exact iff_of_false (by simp) (by simp)
    · intro c hc
      cases hc
    · intro t ht
      cases ht
    · exact List.nodup_nil
    · exact List.nodup_nil
    · dsimp only
      rw [if_neg fun hempty => hbad (Or.inl hempty)]
      rfl) h
  exact ⟨hlinked, hnodes.trans hlist.symm⟩

/-- Whatever has been called since the configuration file was opened: the list, the maps and the
configuration agree in every state, and a call that throws leaves them alone, if and only if every
call was undisturbed. -/
theorem reactionEngine_agreement_iff {reactors : List Bytes}
    {connections : List ReactorConnection} {start : EngineConnections} {calls : List EngineCall}
    (hopen : openConfigFile reactors connections = some start)
    (hrun : run step start calls = some s) :
    ((∀ u, ReachedIn step start calls u → Agrees u) ∧
        ∀ c u u', HappensIn step start calls c u → step u c = some u' →
          (u.call c).2 = false → Unchanged u u') ↔
      ∀ c u, HappensIn step start calls c u → Undisturbed u c := by
  refine steps_iff_of_invariant (synchronous_openConfigFile hopen) (fun u hu => hu.agrees) ?_ ?_
    hrun
  · intro u c u' hu hstep hc
    obtain rfl : (u.call c).1 = u' := Option.some.inj hstep
    exact hu.call hc
  · intro u c u' hu hstep hagrees hkept
    obtain rfl : (u.call c).1 = u' := Option.some.inj hstep
    exact hu.of_fair_call ⟨hagrees, hkept⟩

/-- The identifier of a monitor, which is connected to the reactor `a`, is taken for a reactor. -/
def monitorCalls : List EngineCall :=
  [.addTempConnectionOut (ascii "a") (ascii "m"),
    .removeReactorConnection (ascii "a") (ascii "m") true]

theorem reactionEngine_agreement_monitor :
    ¬ ∀ (reactors : List Bytes) (connections : List ReactorConnection)
      (start s : EngineConnections) (calls : List EngineCall),
      openConfigFile reactors connections = some start → run step start calls = some s →
        (∀ u, ReachedIn step start calls u → Agrees u) ∧
          ∀ c u u', HappensIn step start calls c u → step u c = some u' →
            (u.call c).2 = false → Unchanged u u' := by
  intro hall
  have hopen : (openConfigFile [ascii "a"] []).isSome = true := rfl
  obtain ⟨start, hstart⟩ := Option.isSome_iff_exists.1 hopen
  obtain ⟨hagrees, -⟩ := hall _ _ start _ monitorCalls hstart rfl
  obtain rfl : _ = start := Option.some.inj hstart
  have hlast := hagrees _ ⟨monitorCalls, [], rfl, rfl⟩
  have hhandler := (hlast.temporary (ascii "a") (ascii "m")).2 (by decide +kernel)
  exact absurd hhandler (by decide +kernel)

/-- A connection between two reactors is added and removed with its source. -/
def sourceCalls : List EngineCall :=
  [.addReactorConnection ⟨List.replicate 36 120, rfl⟩ (ascii "a") (ascii "b") true,
    .removeReactor (ascii "a") ⟨false, true, fun _ => true, fun _ => true⟩]

theorem reactionEngine_agreement_source :
    ∃ start s, openConfigFile [ascii "a", ascii "b"] [] = some start ∧
      run step start sourceCalls = some s ∧ s.reactorConnections = [] ∧
      (((∀ u, ReachedIn step start sourceCalls u → Agrees u) ∧
          ∀ c u u', HappensIn step start sourceCalls c u → step u c = some u' →
            (u.call c).2 = false → Unchanged u u') ↔
        ∀ c u, HappensIn step start sourceCalls c u → Undisturbed u c) :=
  ⟨_, _, rfl, rfl, by decide +kernel,
    reactionEngine_agreement_iff (show openConfigFile [ascii "a", ascii "b"] [] = some _ from rfl)
      rfl⟩

end PionCore.Platform.EngineConnections
