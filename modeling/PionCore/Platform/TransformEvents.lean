/-
# What a transform reactor delivers

`TransformReactor::process` makes a new event of each event: some terms are copied, and then the
transforms set their terms, one after the other, until one of them throws.  A transform appends to
the values of its term what it has made of the source event; what the new event has already does not
matter to it.
-/
import PionCore.Platform.SplitJoin
import PionCore.Platform.TransformReactor

namespace PionCore.Platform

open PionCore.Lib SortedMultimap

/-- `m_copy_original` -/
inductive CopyOriginal where
  | copyAll
  | copyUnchanged
  | copyNone
deriving DecidableEq

/-- `m_deliver_original` -/
inductive DeliverOriginal where
  | doAlways
  | doSometimes
  | doNever
deriving DecidableEq

/-- The members of `TransformReactor` beside its transforms; an undefined type is zero. -/
structure TransformPolicy where
  eventType : ℕ := 0
  copyOriginal : CopyOriginal := .copyUnchanged
  deliverOriginal : DeliverOriginal := .doNever

/-- The options of `setConfig` for the outgoing events. -/
def TransformPolicy.ofConfig (v : Vocabulary)
    (outgoingEvent deliverOriginal copyOriginal : Option Bytes) : TransformPolicy where
  eventType :=
    match Transform.getConfigOption outgoingEvent with
    | none => 0
    | some termId => v.findTerm termId
  deliverOriginal :=
    match Transform.getConfigOption deliverOriginal with
    | none => .doNever
    | some option =>
      if option = ascii "true" ∨ option = ascii "always" then .doAlways
      else if option = ascii "if-not-changed" then .doSometimes
      else .doNever
  copyOriginal :=
    match Transform.getConfigOption copyOriginal with
    | none => .copyUnchanged
    | some option =>
      if option = ascii "all-terms" then .copyAll
      else if option = ascii "none" then .copyNone
      else .copyUnchanged

variable {φ δ χ θ ρ : Type*}

namespace Transform

variable (lib : TransformLibrary φ δ χ θ ρ)

/-- `removeTerm` -/
def removeTerm (t : Transform φ δ χ θ ρ) (e : Event φ δ χ θ) : Event φ δ χ θ :=
  e.clearTerm t.term.termRef

/-- The values that a transform makes of a source event: those it sets in an empty event. -/
def assigned (t : Transform φ δ χ θ ρ) (eventType : ℕ) (s : Event φ δ χ θ) :
    List (ParameterValue φ δ χ θ) :=
  SortedMultimap.values t.term.termRef (t.transform lib [] eventType s).2.1

/-- Does the transform throw? -/
def throws (t : Transform φ δ χ θ ρ) (eventType : ℕ) (s : Event φ δ χ θ) : Bool :=
  match (t.transform lib [] eventType s).2.2 with
  | .error _ => true
  | .ok _ => false

end Transform

namespace TransformReactor

variable (lib : TransformLibrary φ δ χ θ ρ)

/-- The loop over the transforms, which an exception ends. -/
def transform (eventType : ℕ) (s : Event φ δ χ θ) :
    TransformReactor φ δ χ θ ρ → Event φ δ χ θ → TransformReactor φ δ χ θ ρ × Event φ δ χ θ
  | [], d => ([], d)
  | t :: ts, d =>
    match t.transform lib d eventType s with
    | (t', d', .error _) => (t' :: ts, d')
    | (t', d', .ok _) =>
      let p := transform eventType s ts d'
      (t' :: p.1, p.2)

/-- The new event, before the transforms. -/
def copied (ts : TransformReactor φ δ χ θ ρ) (policy : CopyOriginal) (e : Event φ δ χ θ) :
    Event φ δ χ θ :=
  match policy with
  | .copyAll => Event.addAll [] e
  | .copyUnchanged => ts.foldl (fun newE t => t.removeTerm newE) (Event.addAll [] e)
  | .copyNone => []

/-- `process`, for an event of a type: the transforms behind the call, and the events that are
delivered. -/
def process (p : TransformPolicy) (ts : TransformReactor φ δ χ θ ρ) (eventType : ℕ)
    (e : Event φ δ χ θ) : TransformReactor φ δ χ θ ρ × List (ℕ × Event φ δ χ θ) :=
  let newType := if p.eventType = 0 then eventType else p.eventType
  let r := transform lib eventType e ts (copied ts p.copyOriginal e)
  (r.1, (newType, r.2) :: if p.deliverOriginal ≠ .doNever then [(eventType, e)] else [])

/-! ### What it is to do -/

/-- The values of a term that are copied. -/
def keptValues (ts : TransformReactor φ δ χ θ ρ) (policy : CopyOriginal) (e : Event φ δ χ θ)
    (termRef : ℕ) : List (ParameterValue φ δ χ θ) :=
  match policy with
  | .copyAll => SortedMultimap.values termRef e
  | .copyUnchanged =>
    if termRef ∈ ts.map fun t => t.term.termRef then [] else SortedMultimap.values termRef e
  | .copyNone => []

/-- The values of a term that the transforms make, up to the first one that throws. -/
def assignedValues (eventType : ℕ) (s : Event φ δ χ θ) (termRef : ℕ) :
    TransformReactor φ δ χ θ ρ → List (ParameterValue φ δ χ θ)
  | [] => []
  | t :: ts =>
    (if t.term.termRef = termRef then t.assigned lib eventType s else []) ++
      if t.throws lib eventType s then [] else assignedValues eventType s termRef ts

end TransformReactor

namespace Transform

variable (lib : TransformLibrary φ δ χ θ ρ)

/-! ### Assignments append values -/

/-- Whatever the event has, the same values are inserted for the term, and the result is the
same. -/
def Appends (termRef : ℕ) {α : Type*} (f : Event φ δ χ θ → α × Assigned φ δ χ θ) : Prop :=
  ∃ (a : α) (vs : List (ParameterValue φ δ χ θ)) (r : Except TransformError Bool),
    ∀ d, f d = (a, insertAll d (vs.map fun v => (termRef, v)), r)

variable {lib} {termRef : ℕ} {α β : Type*}

lemma insertAll_append (d : Event φ δ χ θ) (es fs : List (ℕ × ParameterValue φ δ χ θ)) :
    insertAll d (es ++ fs) = insertAll (insertAll d es) fs := List.foldl_append

/-- Nothing is inserted. -/
lemma Appends.pure (a : α) (r : Except TransformError Bool) :
    Appends termRef fun d : Event φ δ χ θ => (a, d, r) := ⟨a, [], r, fun _ => rfl⟩

/-- What is inserted first, and then what goes on with the result. -/
lemma Appends.bind {f : Event φ δ χ θ → α × Assigned φ δ χ θ}
    {g : α → Except TransformError Bool → Event φ δ χ θ → β × Assigned φ δ χ θ}
    (hf : Appends termRef f) (hg : ∀ a r, Appends termRef (g a r)) :
    Appends termRef fun d => g (f d).1 (f d).2.2 (f d).2.1 := by
  obtain ⟨a, vs, r, hf⟩ := hf
  -- the first part has the same result for all events, so that one continuation is left
  obtain ⟨b, ws, r', hg⟩ := hg a r
  refine ⟨b, vs ++ ws, r', fun d => ?_⟩
  simp only [hf, hg, List.map_append, insertAll_append]

/-- Only what comes beside the event is changed. -/
lemma Appends.map {f : Event φ δ χ θ → α × Assigned φ δ χ θ} (u : α → β)
    (hf : Appends termRef f) : Appends termRef fun d => (u (f d).1, (f d).2) := by
  obtain ⟨a, vs, r, hf⟩ := hf
  refine ⟨u a, vs, r, fun d => ?_⟩
  simp only [hf]

lemma Appends.congr {f g : Event φ δ χ θ → α × Assigned φ δ χ θ} (h : ∀ d, f d = g d)
    (hg : Appends termRef g) : Appends termRef f := (funext h : f = g) ▸ hg

variable (lib)

lemma appends_assignValue (term : Term) (value : Bytes) :
    Appends term.termRef fun d => ((), assignValue lib term d value) := by
  by_cases hvalue : value = []
  · refine (Appends.pure () (.ok true)).congr fun d => ?_
    rw [assignValue, if_pos hvalue]
  · cases hset : SetCall.stringValue lib.conv term value with
    | none =>
      refine (Appends.pure () (.error (.valueAssignment value))).congr fun d => ?_
      rw [assignValue_eq term d hvalue, hset]
    | some v =>
      refine ⟨(), [v], .ok true, fun d => ?_⟩
      dsimp only
      rw [assignValue_eq term d hvalue, hset]
      rfl

lemma appends_assignValues (term : Term) (any : Bool) (values : List Bytes) :
    Appends term.termRef fun d => ((), assignValues lib term d any values) := by
  induction values generalizing any with
  | nil => exact Appends.pure () (.ok any)
  | cons value values ih =>
    refine ((appends_assignValue lib term value).bind (g := fun _ r d =>
      match r with
      | .error error => ((), d, .error error)
      | .ok assigned => ((), assignValues lib term d (any || assigned) values)) ?_).congr
        fun d => ?_
    · rintro - (error | assigned)
      · exact Appends.pure () (.error error)
      · exact ih (any || assigned)
    · rw [assignValues]
      obtain ⟨d', error | assigned⟩ := assignValue lib term d value <;> rfl

lemma appends_assignEach (term src : Term) (strings : Bytes → List Bytes) (any : Bool)
    (vs : List (ParameterValue φ δ χ θ)) :
    Appends term.termRef fun d => ((), assignEach lib term src strings d any vs) := by
  induction vs generalizing any with
  | nil => exact Appends.pure () (.ok any)
  | cons v vs ih =>
    cases hwrite : write lib src v with
    | error error =>
      refine (Appends.pure () (.error error)).congr fun d => ?_
      rw [assignEach, hwrite]
    | ok str =>
      refine ((appends_assignValues lib term any (strings str)).bind (g := fun _ r d =>
        match r with
        | .error error => ((), d, .error error)
        | .ok any' => ((), assignEach lib term src strings d any' vs)) ?_).congr fun d => ?_
      · rintro - (error | any')
        · exact Appends.pure () (.error error)
        · exact ih any'
      · rw [assignEach, hwrite]
        dsimp only
        obtain ⟨d', error | any'⟩ := assignValues lib term d any (strings str) <;> rfl

lemma appends_lookupEach (term src : Term) (debugMode : Bool) (k : Lookup ρ) (any : Bool)
    (vs : List (ParameterValue φ δ χ θ)) :
    Appends term.termRef fun d => lookupEach lib term src debugMode k d any vs := by
  induction vs generalizing any with
  | nil => exact Appends.pure true (.ok any)
  | cons v vs ih =>
    cases hwrite : write lib src v with
    | error error =>
      refine (Appends.pure true (.error error)).congr fun d => ?_
      rw [lookupEach, hwrite]
    | ok str =>
      cases hkey : k.key lib str with
      | none =>
        refine (Appends.pure debugMode (.error (failure str k.matchStr))).congr fun d => ?_
        simp only [lookupEach, hwrite, hkey]
      | some key =>
        cases hfind : k.find key str with
        | none =>
          refine (ih any).congr fun d => ?_
          simp only [lookupEach, hwrite, hkey, hfind]
        | some value =>
          refine ((appends_assignValue lib term value).bind (g := fun _ r d =>
            match r with
            | .error error => (true, d, .error error)
            | .ok assigned => lookupEach lib term src debugMode k d (any || assigned) vs)
              ?_).congr fun d => ?_
          · rintro - (error | assigned)
            · exact Appends.pure true (.error error)
            · exact ih (any || assigned)
          · simp only [lookupEach, hwrite, hkey, hfind]
            obtain ⟨d', error | assigned⟩ := assignValue lib term d value <;> rfl

lemma appends_regexEach (term src : Term) (debugMode : Bool) (rs : List (RegexRule ρ))
    (any : Bool) (vs : List (ParameterValue φ δ χ θ)) :
    Appends term.termRef fun d => regexEach lib term src debugMode rs d any vs := by
  induction vs generalizing rs any with
  | nil => exact Appends.pure rs (.ok any)
  | cons v vs ih =>
    cases hwrite : write lib src v with
    | error error =>
      refine (Appends.pure rs (.error error)).congr fun d => ?_
      rw [regexEach, hwrite]
    | ok str =>
      obtain ⟨rs', hreplace⟩ : ∃ rs', rs' = replaceAll lib debugMode rs str := ⟨_, rfl⟩
      obtain ⟨rs', error | res⟩ := rs'
      · refine (Appends.pure rs' (.error error)).congr fun d => ?_
        simp only [regexEach, hwrite, ← hreplace]
      · refine ((appends_assignValue lib term res).bind (g := fun _ r d =>
          match r with
          | .error error => (rs', d, .error error)
          | .ok assigned => regexEach lib term src debugMode rs' d (any || assigned) vs)
            ?_).congr fun d => ?_
        · rintro - (error | assigned)
          · exact Appends.pure rs' (.error error)
          · exact ih rs' (any || assigned)
        · simp only [regexEach, hwrite, ← hreplace]
          obtain ⟨d', error | assigned⟩ := assignValue lib term d res <;> rfl

lemma appends_ruleEach (term : Term) (debugMode : Bool) (r : Rule φ δ χ θ ρ) (any : Bool)
    (vs : List (ParameterValue φ δ χ θ)) :
    Appends term.termRef fun d => ruleEach lib term debugMode r d any vs := by
  induction vs generalizing any with
  | nil => exact Appends.pure true (.ok any)
  | cons v vs ih =>
    cases heval : r.comparison.evaluateRange lib.toComparisonLibrary [v] with
    | error error =>
      refine (Appends.pure debugMode (.error (r.failure lib v))).congr fun d => ?_
      rw [ruleEach, heval]
    | ok matched =>
      cases matched with
      | false =>
        refine (ih any).congr fun d => ?_
        rw [ruleEach, heval]
      | true =>
        cases hvalue : r.value lib v with
        | none =>
          refine (Appends.pure debugMode (.error (r.failure lib v))).congr fun d => ?_
          simp only [ruleEach, heval, hvalue]
        | some value =>
          refine ((appends_assignValue lib term value).bind (g := fun _ res d =>
            match res with
            | .error _ => (debugMode, d, .error (r.failure lib v))
            | .ok assigned => ruleEach lib term debugMode r d (any || assigned) vs)
              ?_).congr fun d => ?_
          · rintro - (error | assigned)
            · exact Appends.pure debugMode (.error (r.failure lib v))
            · exact ih (any || assigned)
          · simp only [ruleEach, heval, hvalue]
            obtain ⟨d', error | assigned⟩ := assignValue lib term d value <;> rfl

lemma appends_assignIf (term : Term) (condition : Bool) (value : Bytes) (any : Bool) :
    Appends term.termRef fun d : Event φ δ χ θ => assignIf lib term condition value d any := by
  cases condition with
  | false => exact Appends.pure true (.ok any)
  | true => exact (appends_assignValues lib term any [value]).map fun _ => true

lemma appends_apply (term : Term) (debugMode : Bool) (eventType : ℕ) (s : Event φ δ χ θ)
    (r : Rule φ δ χ θ ρ) (any : Bool) :
    Appends term.termRef fun d => r.apply lib term debugMode eventType s d any := by
  cases htype : r.comparison.type
  -- one assignment at most, whatever values there are
  case isDefined | true | isNotDefined =>
    simp only [Rule.apply, htype]
    exact appends_assignIf lib term _ _ any
  case false =>
    simp only [Rule.apply, htype]
    exact Appends.pure true (.ok any)
  all_goals
    simp only [Rule.apply, htype]
    exact appends_ruleEach lib term debugMode r any _

lemma appends_applyRules (term : Term) (debugMode shortCircuit : Bool) (eventType : ℕ)
    (s : Event φ δ χ θ) (rs : List (Rule φ δ χ θ ρ)) (any : Bool) :
    Appends term.termRef fun d =>
      applyRules lib term debugMode shortCircuit eventType s rs d any := by
  induction rs generalizing any with
  | nil => exact Appends.pure [] (.ok any)
  | cons r rs ih =>
    -- the loop over the other rules, behind this one
    have hrest : ∀ any', Appends term.termRef fun d =>
        (r :: (applyRules lib term debugMode shortCircuit eventType s rs d any').1,
          (applyRules lib term debugMode shortCircuit eventType s rs d any').2) := fun any' =>
      (ih any').map fun rs' => r :: rs'
    by_cases hrun : r.running = true
    · refine ((appends_apply lib term debugMode eventType s r any).bind (g := fun running res d =>
        match res with
        | .error error => ({ r with running := running } :: rs, d, .error error)
        | .ok any' =>
          if shortCircuit && any' then (r :: rs, d, .ok any')
          else (r :: (applyRules lib term debugMode shortCircuit eventType s rs d any').1,
            (applyRules lib term debugMode shortCircuit eventType s rs d any').2)) ?_).congr
              fun d => ?_
      · rintro running (error | any')
        · exact Appends.pure _ (.error error)
        · dsimp only
          split_ifs
          · exact Appends.pure _ (.ok any')
          · exact hrest any'
      · rw [applyRules, if_pos hrun]
        obtain ⟨running, d', error | any'⟩ :=
          r.apply lib term debugMode eventType s d any <;> rfl
    · refine (hrest any).congr fun d => ?_
      rw [applyRules, if_neg hrun]

/-- Every transform appends to the values of its term. -/
lemma appends_transform (t : Transform φ δ χ θ ρ) (eventType : ℕ) (s : Event φ δ χ θ) :
    Appends t.term.termRef fun d => t.transform lib d eventType s := by
  obtain ⟨term, debugMode, kind⟩ := t
  -- only lookups, rules and regular expressions can be another transform behind the call
  cases kind with
  | assignValue setValue => exact (appends_assignValue lib term setValue).map fun _ => _
  | assignTerm src | urlEncode src | urlDecode src | splitTerm src sep =>
    exact (appends_assignEach lib term src _ false _).map fun _ => _
  | joinTerm src separator unique =>
    simp only [transform]
    cases joined lib src separator unique [] [] (Comparison.valuesRange s src.termRef) with
    | error error => exact Appends.pure _ (.error error)
    | ok result => exact (appends_assignValue lib term result).map fun _ => _
  | lookup src k =>
    simp only [transform]
    split_ifs
    · exact (appends_lookupEach lib term src debugMode k false _).map fun running =>
        Transform.mk term debugMode (.lookup src { k with running := running })
    · exact Appends.pure _ (.ok false)
  | rules shortCircuit rules =>
    exact (appends_applyRules lib term debugMode shortCircuit eventType s rules false).map fun rs =>
      Transform.mk term debugMode (.rules shortCircuit rs)
  | regex src rules =>
    exact (appends_regexEach lib term src debugMode rules false _).map fun rs =>
      Transform.mk term debugMode (.regex src rs)

lemma values_map (termRef : ℕ) (vs : List (ParameterValue φ δ χ θ)) :
    SortedMultimap.values termRef (vs.map fun v => (termRef, v)) = vs := by
  simp [SortedMultimap.values, List.filter_map, Function.comp_def]

lemma values_map_of_ne {termRef t : ℕ} (hne : t ≠ termRef) (vs : List (ParameterValue φ δ χ θ)) :
    SortedMultimap.values termRef (vs.map fun v => (t, v)) = [] := by
  simp [SortedMultimap.values, List.filter_map, Function.comp_def, hne]

/-- What a transform does to any event: its values, made of the source event, come behind those of
the term. -/
lemma transform_eq (t : Transform φ δ χ θ ρ) (eventType : ℕ) (s d : Event φ δ χ θ) :
    (t.transform lib d eventType s).2.1 =
        insertAll d ((t.assigned lib eventType s).map fun v => (t.term.termRef, v)) ∧
      (t.transform lib d eventType s).1 = (t.transform lib [] eventType s).1 ∧
      (t.transform lib d eventType s).2.2 = (t.transform lib [] eventType s).2.2 := by
  obtain ⟨u, vs, r, h⟩ := appends_transform lib t eventType s
  dsimp only at h
  have hassigned : t.assigned lib eventType s = vs := by
    have hnil : Sorted ([] : Event φ δ χ θ) := List.Pairwise.nil
    rw [assigned, h, values_insertAll hnil, values_map]
    rfl
  rw [hassigned, h d, h []]
  exact ⟨rfl, rfl, rfl⟩

end Transform

namespace TransformReactor

variable (lib : TransformLibrary φ δ χ θ ρ)

/-- The loop appends, for each term, what the transforms make of the source event. -/
lemma values_transform (eventType : ℕ) (s : Event φ δ χ θ) (ts : TransformReactor φ δ χ θ ρ)
    {d : Event φ δ χ θ} (hd : Sorted d) :
    Sorted (transform lib eventType s ts d).2 ∧ ∀ termRef,
      SortedMultimap.values termRef (transform lib eventType s ts d).2 =
        SortedMultimap.values termRef d ++ assignedValues lib eventType s termRef ts := by
  induction ts generalizing d with
  | nil => exact ⟨hd, fun termRef => (List.append_nil _).symm⟩
  | cons t ts ih =>
    -- whether it throws is decided by the source event
    obtain ⟨hevent, -, hresult⟩ := t.transform_eq lib eventType s d
    have hsorted : Sorted (t.transform lib d eventType s).2.1 := by
      rw [hevent]
      exact hd.insertAll
    have hvalues : ∀ termRef,
        SortedMultimap.values termRef (t.transform lib d eventType s).2.1 =
          SortedMultimap.values termRef d ++
            if t.term.termRef = termRef then t.assigned lib eventType s else [] := by
      intro termRef
      rw [hevent, values_insertAll hd]
      split_ifs with hterm
      · rw [← hterm, Transform.values_map]
      · rw [Transform.values_map_of_ne hterm]
    have hthrows : t.throws lib eventType s =
        match (t.transform lib d eventType s).2.2 with
        | .error _ => true
        | .ok _ => false := by
      rw [hresult]
      rfl
    rw [transform]
    obtain ⟨p, hp⟩ : ∃ p, p = t.transform lib d eventType s := ⟨_, rfl⟩
    rw [← hp] at hsorted hvalues hthrows ⊢
    obtain ⟨t', d', error | any⟩ := p
    · -- an exception ends the loop, and what has been set stays
      refine ⟨hsorted, fun termRef => ?_⟩
      rw [hvalues, assignedValues, hthrows, if_pos rfl, List.append_nil]
    · obtain ⟨hrest, hlast⟩ := ih hsorted
      refine ⟨hrest, fun termRef => ?_⟩
      rw [hlast, hvalues, assignedValues, hthrows, if_neg Bool.false_ne_true, List.append_assoc]

/-- Removing the terms of all transforms leaves the values of the others. -/
lemma values_removeTerms (ts : TransformReactor φ δ χ θ ρ) {d : Event φ δ χ θ} (hd : Sorted d) :
    Sorted (ts.foldl (fun newE t => t.removeTerm newE) d) ∧ ∀ termRef,
      SortedMultimap.values termRef (ts.foldl (fun newE t => t.removeTerm newE) d) =
        if termRef ∈ ts.map fun t => t.term.termRef then []
        else SortedMultimap.values termRef d := by
  induction ts generalizing d with
  | nil => exact ⟨hd, fun termRef => rfl⟩
  | cons t ts ih =>
    have hremove : t.removeTerm d = d.filter (·.1 ≠ t.term.termRef) := hd.eraseFrom_eq _
    have hsorted : Sorted (t.removeTerm d) := hremove ▸ hd.filter _
    obtain ⟨hrest, hvalues⟩ := ih hsorted
    refine ⟨hrest, fun termRef => ?_⟩
    rw [List.foldl_cons, hvalues, List.map_cons]
    -- a term that is removed has no values for the other transforms to remove
    by_cases hterm : termRef = t.term.termRef
    · rw [if_pos (List.mem_cons.2 (Or.inl hterm)), hremove, hterm, values_filter_self, ite_self]
    · rw [hremove, values_filter_of_ne hterm]
      simp only [List.mem_cons, hterm, false_or]

lemma values_copied (ts : TransformReactor φ δ χ θ ρ) (policy : CopyOriginal)
    (e : Event φ δ χ θ) :
    Sorted (copied ts policy e) ∧ ∀ termRef,
      SortedMultimap.values termRef (copied ts policy e) = keptValues ts policy e termRef := by
  have hnil : Sorted ([] : Event φ δ χ θ) := List.Pairwise.nil
  have hall : ∀ termRef, SortedMultimap.values termRef (Event.addAll [] e) =
      SortedMultimap.values termRef e := fun termRef => by
    rw [Event.addAll, values_insertAll hnil]
    rfl
  cases policy with
  | copyAll => exact ⟨hnil.insertAll, hall⟩
  | copyUnchanged =>
    obtain ⟨hsorted, hvalues⟩ := values_removeTerms ts (d := Event.addAll [] e) hnil.insertAll
    refine ⟨hsorted, fun termRef => ?_⟩
    rw [copied, keptValues, hvalues, hall]
  | copyNone => exact ⟨hnil, fun termRef => rfl⟩

/-- One new event is delivered, with the values that are copied under the policy and those that the
transforms make of the source event; and then the source event, unless it is never delivered. -/
theorem process_delivers (p : TransformPolicy) (ts : TransformReactor φ δ χ θ ρ) (eventType : ℕ)
    (e : Event φ δ χ θ) :
    ∃ newE : Event φ δ χ θ,
      (process lib p ts eventType e).2 =
        (if p.eventType = 0 then eventType else p.eventType, newE) ::
          (if p.deliverOriginal = .doNever then [] else [(eventType, e)]) ∧
      ∀ termRef, Comparison.valuesRange newE termRef =
        keptValues ts p.copyOriginal e termRef ++ assignedValues lib eventType e termRef ts := by
  obtain ⟨hcopied, hkept⟩ := values_copied ts p.copyOriginal e
  obtain ⟨hsorted, hvalues⟩ := values_transform lib eventType e ts hcopied
  refine ⟨(transform lib eventType e ts (copied ts p.copyOriginal e)).2, ?_, fun termRef => ?_⟩
  · rw [process]
    dsimp only
    rw [ite_not]
  · rw [Transform.valuesRange_eq hsorted, hvalues, hkept]

end TransformReactor

end PionCore.Platform
