/-
# Copies between events

`copyValues` and `operator+=` walk along the tree of one event, and insert what they find into the
tree of another one.  When both are the same event, every node that comes in stands in front of the
end of the walk (`copyLoop_self`), so that neither call ends (`appendsExactly_iff`).
-/
import PionCore.Lib.Cursors
import PionCore.Platform.Event

namespace PionCore.Platform

open PionCore.Lib SortedMultimap

namespace EventTrees

variable {ι φ δ χ θ : Type*} [DecidableEq ι]

/-- The trees of the events. -/
abbrev Trees (ι φ δ χ θ : Type*) : Type _ := ι → Event φ δ χ θ

/-- A node of the event `j`, when a parameter with the term has come into the event `i`. -/
def nodeAfter (s : Trees ι φ δ χ θ) (i j : ι) (termRef node : ℕ) : ℕ :=
  if i = j then moved termRef (s i) node else node

/-- The loop of both functions, with the event that takes the values, the one that has them, and the
nodes where the loop is and where it ends.  `none`: the loop has not ended. -/
def copyLoop (i j : ι) : ℕ → Trees ι φ δ χ θ → ℕ → ℕ → Option (Trees ι φ δ χ θ)
  | 0, _, _, _ => none
  | fuel + 1, s, node, last =>
    if node = last then some s
    else
      match (s j)[node]? with
      | none => none
      | some (termRef, value) =>
        copyLoop i j fuel (Function.update s i ((s i).insert termRef value))
          (nodeAfter s i j termRef node + 1) (nodeAfter s i j termRef last)

/-- `e_i.copyValues(e_j, term_ref)`. -/
def copyValues (fuel : ℕ) (s : Trees ι φ δ χ θ) (i j : ι) (termRef : ℕ) :
    Option (Trees ι φ δ χ θ) :=
  copyLoop i j fuel s (lowerBound termRef (s j)) (upperBound termRef (s j))

/-- `e_i += e_j`. -/
def addAll (fuel : ℕ) (s : Trees ι φ δ χ θ) (i j : ι) : Option (Trees ι φ δ χ θ) :=
  copyLoop i j fuel s 0 (s j).length

/-- The call ends, the event has its values and behind them those that the other one had before the
call, for each of the terms that the call copies, and nothing else changes. -/
def AppendsExactly (call : ℕ → Trees ι φ δ χ θ → Option (Trees ι φ δ χ θ)) (copied : ℕ → Prop)
    [DecidablePred copied] (s : Trees ι φ δ χ θ) (i j : ι) : Prop :=
  ∃ fuel s', call fuel s = some s' ∧ Sorted (s' i) ∧
    (∀ t, values t (s' i) = values t (s i) ++ if copied t then values t (s j) else []) ∧
    ∀ k, k ≠ i → s' k = s k

variable {s : Trees ι φ δ χ θ} {i j : ι} {termRef node last : ℕ}

/-! ### Two events -/

/-- The loop copies what is from its node to the last one. -/
lemma copyLoop_ne (hne : i ≠ j) (hle : node ≤ last) (hlast : last ≤ (s j).length) :
    copyLoop i j (last - node + 1) s node last =
      some (Function.update s i (insertAll (s i) (range node last (s j)))) := by
  obtain ⟨n, rfl⟩ := Nat.exists_eq_add_of_le hle
  induction n generalizing s node with
  | zero =>
    rw [copyLoop, if_pos (Nat.add_zero node).symm, Nat.add_zero, range_self]
    exact congrArg some (Function.update_eq_self i s).symm
  | succ n ih =>
    obtain ⟨⟨t, v⟩, hnode⟩ : ∃ e, (s j)[node]? = some e :=
      ⟨_, List.getElem?_eq_getElem (show node < (s j).length by omega)⟩
    have hj : Function.update s i ((s i).insert t v) j = s j := Function.update_of_ne hne.symm ..
    have hrest := @ih (Function.update s i ((s i).insert t v)) (node + 1)
      (by omega) (by rw [hj]; omega)
    rw [copyLoop, if_neg (by omega), hnode, range_step hnode (by omega)]
    dsimp only
    rw [nodeAfter, nodeAfter, if_neg hne, if_neg hne,
      show node + (n + 1) - node = node + 1 + n - (node + 1) + 1 by omega,
      show node + (n + 1) = node + 1 + n by omega, hrest, hj, Function.update_self,
      Function.update_idem]
    rfl

/-- With two events the call is the one of the runs of events. -/
lemma copyValues_ne (hne : i ≠ j) (hs : Sorted (s j)) :
    ∃ fuel, copyValues fuel s i j termRef =
      some (Function.update s i ((s i).copyValues (s j) termRef)) := by
  refine ⟨_, copyLoop_ne hne ?_ (hs.boundary_upperBound termRef).le⟩
  obtain ⟨a, b, c, hsplit, ha, hb, hc⟩ := hs.split termRef
  rw [hsplit, lowerBound_split ha hb hc, upperBound_split ha hb hc]
  exact Nat.le_add_right _ _

lemma addAll_ne (hne : i ≠ j) :
    ∃ fuel, addAll fuel s i j = some (Function.update s i ((s i).addAll (s j))) := by
  have hloop := copyLoop_ne (s := s) hne (Nat.zero_le (s j).length) le_rfl
  rw [range, List.drop_zero, Nat.sub_zero, List.take_length] at hloop
  exact ⟨_, hloop⟩

/-! ### One event -/

/-- The end of the walk moves with every node that comes in. -/
lemma copyLoop_self (hs : Sorted (s i)) (hlt : node < last) (hlast : Boundary (s i) last)
    (fuel : ℕ) : copyLoop i i fuel s node last = none := by
  induction fuel generalizing s node last with
  | zero => rfl
  | succ fuel ih =>
    obtain ⟨⟨t, v⟩, hnode⟩ : ∃ e, (s i)[node]? = some e :=
      ⟨_, List.getElem?_eq_getElem (hlt.trans_le hlast.le)⟩
    obtain ⟨hmoved, hboundary⟩ := hlast.step hnode hlt
    have hi : Function.update s i ((s i).insert t v) i = insertEqual t v (s i) :=
      Function.update_self ..
    rw [copyLoop, if_neg hlt.ne, hnode]
    dsimp only
    rw [nodeAfter, nodeAfter, if_pos rfl, if_pos rfl, hs.moved_self hnode, hmoved]
    refine ih ?_ (Nat.succ_lt_succ hlt) ?_
    · rw [hi]
      exact hs.insertEqual
    · rw [hi]
      exact hboundary

omit [DecidableEq ι] in
/-- A call that has nothing to copy. -/
lemma AppendsExactly.nothing {call : ℕ → Trees ι φ δ χ θ → Option (Trees ι φ δ χ θ)}
    {copied : ℕ → Prop} [DecidablePred copied] (hs : Sorted (s i)) (hcall : call 1 s = some s)
    (hnone : ∀ t, copied t → values t (s j) = []) : AppendsExactly call copied s i j := by
  refine ⟨1, s, hcall, hs, fun t => ?_, fun _ _ => rfl⟩
  split_ifs with ht
  · rw [hnone t ht, List.append_nil]
  · rw [List.append_nil]

/-- `copyValues` with one event: its range is not empty, and its end moves on. -/
lemma copyValues_self (hs : Sorted (s i)) (hvalues : values termRef (s i) ≠ []) (fuel : ℕ) :
    copyValues fuel s i i termRef = none := by
  refine copyLoop_self hs ?_ (hs.boundary_upperBound termRef) fuel
  obtain ⟨a, b, c, hsplit, ha, hb, hc⟩ := hs.split termRef
  rw [values, hsplit, filter_split ha hb hc, Ne, List.map_eq_nil_iff] at hvalues
  rw [hsplit, lowerBound_split ha hb hc, upperBound_split ha hb hc]
  exact Nat.lt_add_of_pos_right (List.length_pos_iff.2 hvalues)

lemma addAll_self (hs : Sorted (s i)) (hvalues : s i ≠ []) (fuel : ℕ) :
    addAll fuel s i i = none :=
  copyLoop_self hs (List.length_pos_iff.2 hvalues) Boundary.length fuel

/-- A range without values is empty. -/
lemma copyValues_nothing (hs : Sorted (s j)) (hvalues : values termRef (s j) = []) :
    copyValues 1 s i j termRef = some s := by
  obtain ⟨a, b, c, hsplit, ha, hb, hc⟩ := hs.split termRef
  rw [values, hsplit, filter_split ha hb hc, List.map_eq_nil_iff] at hvalues
  refine if_pos ?_
  rw [hsplit, lowerBound_split ha hb hc, upperBound_split ha hb hc, hvalues]
  rfl

/-- A call that gives what the runs of events do. -/
lemma AppendsExactly.insertAll {call : ℕ → Trees ι φ δ χ θ → Option (Trees ι φ δ χ θ)}
    {copied : ℕ → Prop} [DecidablePred copied] {l : Event φ δ χ θ} (hs : Sorted (s i))
    (hcall : ∃ fuel, call fuel s = some (Function.update s i (SortedMultimap.insertAll (s i) l)))
    (hvalues : ∀ t, values t l = if copied t then values t (s j) else []) :
    AppendsExactly call copied s i j := by
  obtain ⟨fuel, hcall⟩ := hcall
  refine ⟨fuel, _, hcall, ?_, fun t => ?_, fun k hk => Function.update_of_ne hk ..⟩
  · rw [Function.update_self]
    exact hs.insertAll
  · rw [Function.update_self, values_insertAll hs, hvalues]

end EventTrees

open EventTrees

variable {ι φ δ χ θ : Type*} [DecidableEq ι]

/-- `copyValues` and `operator+=` end and append what the source had before the call, just when the
source is another event, or when it has no value that they copy. -/
theorem appendsExactly_iff {s : Trees ι φ δ χ θ} (hs : ∀ i, Sorted (s i)) (i j : ι)
    (termRef : ℕ) :
    (AppendsExactly (fun fuel s => copyValues fuel s i j termRef) (· = termRef) s i j ↔
        i ≠ j ∨ values termRef (s j) = []) ∧
      (AppendsExactly (fun fuel s => addAll fuel s i j) (fun _ => True) s i j ↔
        i ≠ j ∨ s j = []) := by
  refine ⟨⟨fun h => ?_, fun h => ?_⟩, fun h => ?_, fun h => ?_⟩
  · -- the call has ended
    obtain ⟨fuel, s', hcall, -⟩ := h
    by_contra hnot
    obtain ⟨hij, hvalues⟩ := not_or.1 hnot
    obtain rfl := not_not.1 hij
    exact absurd ((copyValues_self (hs i) hvalues fuel).symm.trans hcall) nofun
  · by_cases hij : i = j
    · have hvalues := h.resolve_left (not_not.2 hij)
      refine .nothing (hs i) (copyValues_nothing (hs j) hvalues) ?_
      rintro t rfl
      exact hvalues
    · refine .insertAll (hs i) (copyValues_ne hij (hs j)) fun t => ?_
      rw [(hs j).range_eq]
      split_ifs with ht
      · rw [ht]
        exact values_filter_eq_self
      · exact values_filter_eq_of_ne ht
  · obtain ⟨fuel, s', hcall, -⟩ := h
    by_contra hnot
    obtain ⟨hij, hvalues⟩ := not_or.1 hnot
    obtain rfl := not_not.1 hij
    exact absurd ((addAll_self (hs i) hvalues fuel).symm.trans hcall) nofun
  · by_cases hij : i = j
    · have hvalues := h.resolve_left (not_not.2 hij)
      refine .nothing (hs i) (if_pos ?_) fun t _ => ?_
      · rw [hvalues]
        rfl
      · rw [hvalues]
        rfl
    · exact .insertAll (hs i) (addAll_ne hij) fun t => (if_pos trivial).symm

/-- Two events, and a term of which the source has two values. -/
theorem appendsExactly_iff_pair :
    let s : Trees Bool Empty Empty Empty Empty :=
      fun i => if i then [(3, .int32 1), (7, .int32 2), (7, .int32 3)] else [(7, .int32 4)]
    (AppendsExactly (fun fuel s => copyValues fuel s false true 7) (· = 7) s false true ↔
        false ≠ true ∨ values 7 (s true) = []) ∧
      (AppendsExactly (fun fuel s => addAll fuel s false true) (fun _ => True) s false true ↔
        false ≠ true ∨ s true = []) :=
  appendsExactly_iff (by
    rintro (_ | _)
    · exact List.pairwise_singleton _ _
    · simp [Sorted]) false true 7

/-- An event with one value is given twice: the call never ends. -/
theorem not_appendsExactly :
    let s : Trees Unit Empty Empty Empty Empty := fun _ => [(7, .int32 1)]
    (∀ fuel, copyValues fuel s () () 7 = none) ∧ (∀ fuel, addAll fuel s () () = none) ∧
      ¬ AppendsExactly (fun fuel s => copyValues fuel s () () 7) (· = 7) s () () ∧
      ¬ AppendsExactly (fun fuel s => addAll fuel s () ()) (fun _ => True) s () () := by
  intro s
  have hs : Sorted (s ()) := List.pairwise_singleton _ _
  have hcopy := copyValues_self hs (show values 7 (s ()) ≠ [] from List.cons_ne_nil _ _)
  have hadd := addAll_self hs (List.cons_ne_nil _ _)
  refine ⟨hcopy, hadd, ?_, ?_⟩
  · rintro ⟨fuel, s', hcall, -⟩
    exact absurd ((hcopy fuel).symm.trans hcall) nofun
  · rintro ⟨fuel, s', hcall, -⟩
    exact absurd ((hadd fuel).symm.trans hcall) nofun

end PionCore.Platform
