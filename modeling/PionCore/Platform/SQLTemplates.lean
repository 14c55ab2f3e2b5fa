/-
# Placeholders in SQL

`Database::stringSubstitutes` replaces the placeholders of a template, one kind after the other.  A
search goes on at the beginning of the text that was inserted last, so that inserted text is
searched again, by itself and together with what is behind it.
-/
import PionCore.Lib.Ascii

namespace PionCore.Platform

open PionCore.Lib

/-- The placeholders, in the order in which they are replaced. -/
inductive Placeholder where
  | table
  | fields
  | columns
  | column
  | questions
  | params
deriving DecidableEq

namespace Placeholder

def text : Placeholder → Bytes
  | table => ascii ":TABLE"
  | fields => ascii ":FIELDS"
  | columns => ascii ":COLUMNS"
  | column => ascii ":COLUMN"
  | questions => ascii ":QUESTIONS"
  | params => ascii ":PARAMS"

def all : List Placeholder := [table, fields, columns, column, questions, params]

/-- `j` is replaced before `k`. -/
def before (j k : Placeholder) : Bool := all.idxOf j < all.idxOf k

end Placeholder

/-! ### Replacing -/

/-- `find`: the text in front of the first occurrence, and the text behind it. -/
def findText (search : Bytes) (s : Bytes) : Option (Bytes × Bytes) :=
  if search.isPrefixOf s then some ([], s.drop search.length)
  else
    match s with
    | [] => none
    | c :: s => (findText search s).map fun found => (c :: found.1, found.2)

/-- The loop of `stringReplace`, from a position on: there is no result in `n` turns if it goes
on. -/
def replaceFrom (search substitute : Bytes) : ℕ → Bytes → Bytes → Option Bytes
  | 0, _, _ => none
  | n + 1, done, s =>
      match findText search s with
      | none => some (done ++ s)
      | some found =>
          replaceFrom search substitute n (done ++ found.1) (substitute ++ found.2)

def stringReplace (n : ℕ) (src search substitute : Bytes) : Option Bytes :=
  replaceFrom search substitute n [] src

/-- With commas, but not after the last one. -/
def withCommas (ws : List Bytes) : Bytes := [44].intercalate ws

/-- The text for a placeholder.  The fields of the map have names and types, and `affinity` is
`m_sql_affinity`. -/
def expansion {τ : Type*} (affinity : τ → Bytes) (fieldMap : List (Bytes × τ))
    (tableName columnsOverride : Bytes) : Placeholder → Bytes
  | .table => tableName
  | .fields => withCommas (fieldMap.map fun f => f.1 ++ 32 :: affinity f.2)
  | .columns =>
      if columnsOverride = [] then withCommas (fieldMap.map Prod.fst) else columnsOverride
  | .column => (fieldMap.head?.map Prod.fst).getD []
  | .questions => withCommas (fieldMap.map fun _ => [63])
  | .params => withCommas (fieldMap.mapIdx fun p _ => 58 :: numeral 10 (p + 1))

/-- One kind of placeholder after the other, each in `n` turns at most. -/
def replaceAll (e : Placeholder → Bytes) (n : ℕ) (query : Bytes) : Option Bytes :=
  Placeholder.all.foldlM (fun q k => stringReplace n q k.text (e k)) query

def stringSubstitutes {τ : Type*} (affinity : τ → Bytes) (n : ℕ) (query : Bytes)
    (fieldMap : List (Bytes × τ)) (tableName columnsOverride : Bytes) : Option Bytes :=
  replaceAll (expansion affinity fieldMap tableName columnsOverride) n query

/-! ### One pass -/

/-- The placeholder at the beginning of a text, the longest one if there are two. -/
def placeholderAt (s : Bytes) : Option Placeholder :=
  Placeholder.all.find? fun k => k.text.isPrefixOf s

/-- The placeholders of a template and the characters in between; the first bytes are skipped, which
belong to a placeholder. -/
def tokens : ℕ → Bytes → List (Byte ⊕ Placeholder)
  | _, [] => []
  | n + 1, _ :: s => tokens n s
  | 0, c :: s =>
      match placeholderAt (c :: s) with
      | some k => .inr k :: tokens (k.text.length - 1) s
      | none => .inl c :: tokens 0 s

/-- Every placeholder of the template is replaced, and nothing else. -/
def substituteOnce (e : Placeholder → Bytes) (query : Bytes) : Bytes :=
  (tokens 0 query).flatMap (Sum.elim (fun c => [c]) e)

/-- What stands for a token when the placeholders with this property have been replaced. -/
def shown (e : Placeholder → Bytes) (replaced : Placeholder → Bool) : Byte ⊕ Placeholder → Bytes
  | .inl c => [c]
  | .inr j => if replaced j then e j else j.text

/-- The tokens in front of the pass for `k`. -/
def pending (e : Placeholder → Bytes) (k : Placeholder) (ts : List (Byte ⊕ Placeholder)) : Bytes :=
  ts.flatMap (shown e fun j => j.before k)

/-- In the pass for `k` the search finds nothing that begins in what stands for a token behind it,
be it inserted or passed over, or by itself or together with what follows. -/
def isQuiet (e : Placeholder → Bytes) (k : Placeholder) : List (Byte ⊕ Placeholder) → Bool
  | [] => true
  | x :: ts =>
      ((shown e (fun j => j.before k || j = k) x).tails.all fun z =>
        z = [] || ! k.text.isPrefixOf (z ++ pending e k ts)) && isQuiet e k ts

/-- No pass finds anything but the placeholders of the template. -/
def Undisturbed (e : Placeholder → Bytes) (query : Bytes) : Prop :=
  ∀ k ∈ Placeholder.all, isQuiet e k (tokens 0 query) = true

instance (e : Placeholder → Bytes) (query : Bytes) : Decidable (Undisturbed e query) :=
  inferInstanceAs (Decidable (∀ k ∈ Placeholder.all, _))

variable {search substitute s w : Bytes} {e : Placeholder → Bytes} {k : Placeholder} {n : ℕ}
  {ts : List (Byte ⊕ Placeholder)}

/-! ### Searching -/

lemma findText_front (s : Bytes) : findText search (search ++ s) = some ([], s) := by
  have hprefix : search.isPrefixOf (search ++ s) = true :=
    List.isPrefixOf_iff_prefix.2 (List.prefix_append search s)
  rw [findText.eq_def, if_pos hprefix, List.drop_left]

/-- Text in which nothing that is searched for begins is passed over. -/
lemma findText_append (hw : ∀ z ∈ w.tails, z ≠ [] → ¬ search <+: z ++ s) :
    findText search (w ++ s) = (findText search s).map fun found => (w ++ found.1, found.2) := by
  induction w with
  | nil => exact Option.map_id'.symm
  | cons c w ih =>
    rw [List.tails_cons, List.forall_mem_cons] at hw
    have hnot : ¬ search.isPrefixOf (c :: (w ++ s)) = true := fun h =>
      hw.1 (List.cons_ne_nil c w) (List.isPrefixOf_iff_prefix.1 h)
    rw [List.cons_append, findText.eq_def, if_neg hnot]
    dsimp only
    rw [ih hw.2, Option.map_map]
    rfl

lemma replaceFrom_append (hw : ∀ z ∈ w.tails, z ≠ [] → ¬ search <+: z ++ s) (n : ℕ) (done : Bytes) :
    replaceFrom search substitute n done (w ++ s) =
      replaceFrom search substitute n (done ++ w) s := by
  cases n with
  | zero => rfl
  | succ n =>
    rw [replaceFrom, replaceFrom, findText_append hw]
    cases findText search s with
    | none => simp
    | some found => simp

/-! ### One kind of placeholder -/

lemma pending_cons (x : Byte ⊕ Placeholder) (ts : List (Byte ⊕ Placeholder)) :
    pending e k (x :: ts) = shown e (fun j => j.before k) x ++ pending e k ts :=
  List.flatMap_cons

lemma before_self (k : Placeholder) : k.before k = false := by
  cases k <;> decide

/-- Only the placeholder itself is shown in another way behind its pass. -/
lemma shown_of_ne {x : Byte ⊕ Placeholder} (hx : x ≠ .inr k) :
    shown e (fun j => j.before k || j = k) x = shown e (fun j => j.before k) x := by
  cases x with
  | inl c => rfl
  | inr j =>
    have hne : j ≠ k := fun h => hx (congrArg _ h)
    simp [shown, hne]

lemma isQuiet_cons {x : Byte ⊕ Placeholder} (h : isQuiet e k (x :: ts) = true) :
    (∀ z ∈ (shown e (fun j => j.before k || j = k) x).tails, z ≠ [] →
      ¬ k.text <+: z ++ pending e k ts) ∧ isQuiet e k ts = true := by
  obtain ⟨hall, hts⟩ := Bool.and_eq_true_iff.1 h
  refine ⟨fun z hz hne hprefix => ?_, hts⟩
  have hor := List.all_eq_true.1 hall z hz
  rw [List.isPrefixOf_iff_prefix.2 hprefix] at hor
  simp [hne] at hor

/-- A pass that is quiet replaces the tokens of its kind, in a turn for each and one more. -/
lemma replaceFrom_pending (h : isQuiet e k ts = true) (hn : ts.length < n) (done : Bytes) :
    replaceFrom k.text (e k) n done (pending e k ts) =
      some (done ++ ts.flatMap (shown e fun j => j.before k || j = k)) := by
  induction ts generalizing n done with
  | nil =>
    obtain ⟨m, rfl⟩ := Nat.exists_eq_succ_of_ne_zero hn.ne_bot
    have hnone : findText k.text [] = none := by cases k <;> decide
    rw [pending, List.flatMap_nil, replaceFrom, hnone]
    rfl
  | cons x ts ih =>
    obtain ⟨hx, hts⟩ := isQuiet_cons h
    rw [List.length_cons] at hn
    rw [pending_cons, List.flatMap_cons, ← List.append_assoc]
    by_cases hk : x = .inr k
    · -- the placeholder is found, and what is inserted for it is passed over
      subst hk
      obtain ⟨m, rfl⟩ := Nat.exists_eq_succ_of_ne_zero (Nat.ne_zero_of_lt hn)
      have htext : shown e (fun j => j.before k) (.inr k) = k.text := by
        rw [shown, before_self, if_neg Bool.false_ne_true]
      have hinserted : shown e (fun j => j.before k || j = k) (.inr k) = e k := by
        simp [shown]
      rw [hinserted] at hx ⊢
      rw [htext, replaceFrom, findText_front]
      dsimp only
      rw [List.append_nil, replaceFrom_append hx]
      exact ih hts (by omega) (done ++ e k)
    · rw [shown_of_ne hk] at hx ⊢
      rw [replaceFrom_append hx]
      exact ih hts (by omega) _

/-! ### All of them -/

lemma tokens_skip (w s : Bytes) : tokens w.length (w ++ s) = tokens 0 s := by
  induction w with
  | nil => rfl
  | cons c w ih => exact ih

lemma text_ne_nil (k : Placeholder) : k.text ≠ [] := by
  cases k <;> decide

/-- The tokens make up the template. -/
lemma flatMap_tokens (query : Bytes) :
    (tokens 0 query).flatMap (Sum.elim (fun c => [c]) Placeholder.text) = query := by
  induction h : query.length using Nat.strong_induction_on generalizing query with
  | _ n ih =>
    cases query with
    | nil => rfl
    | cons c s =>
      rw [tokens]
      cases hat : placeholderAt (c :: s) with
      | none =>
        dsimp only
        rw [List.flatMap_cons, ih s.length (by simp at h; omega) s rfl]
        rfl
      | some k =>
        have hprefix : k.text <+: c :: s :=
          List.isPrefixOf_iff_prefix.1
            (List.find?_some (p := fun k : Placeholder => k.text.isPrefixOf (c :: s)) hat)
        obtain ⟨d, w, hw⟩ := List.exists_cons_of_ne_nil (text_ne_nil k)
        obtain ⟨rest, hrest⟩ := hprefix
        rw [hw, List.cons_append] at hrest
        obtain ⟨rfl, rfl⟩ := List.cons.inj hrest
        dsimp only
        rw [hw, List.length_cons, Nat.add_sub_cancel, tokens_skip, List.flatMap_cons,
          ih rest.length (by simp at h; omega) rest rfl, Sum.elim_inr, hw]
        rfl

/-- A quiet pass leads to the text in front of the next one. -/
lemma stringReplace_pending {k' : Placeholder} (h : isQuiet e k ts = true) (hn : ts.length < n)
    (hnext : ∀ j : Placeholder, (j.before k || j = k) = j.before k') :
    stringReplace n (pending e k ts) k.text (e k) = some (pending e k' ts) := by
  rw [stringReplace, replaceFrom_pending h hn, List.nil_append, pending, funext hnext]

/-- In an undisturbed template every placeholder is replaced, and nothing else. -/
lemma replaceAll_eq {query : Bytes} (h : Undisturbed e query) (hn : (tokens 0 query).length < n) :
    replaceAll e n query = some (substituteOnce e query) := by
  have hpass : ∀ k ∈ Placeholder.all, ∀ k' : Placeholder,
      (∀ j : Placeholder, (j.before k || j = k) = j.before k') →
      stringReplace n (pending e k (tokens 0 query)) k.text (e k) =
        some (pending e k' (tokens 0 query)) := fun k hk k' hnext =>
    stringReplace_pending (h k hk) hn hnext
  have hfirst : pending e .table (tokens 0 query) = query := by
    have hshown : shown e (fun j => j.before .table) =
        Sum.elim (fun c => [c]) Placeholder.text := by
      funext x
      rcases x with c | j
      · rfl
      · cases j <;> rfl
    rw [pending, hshown, flatMap_tokens]
  have hlast : stringReplace n (pending e .params (tokens 0 query)) Placeholder.params.text
      (e .params) = some (substituteOnce e query) := by
    have hshown : shown e (fun j => j.before .params || j = .params) =
        Sum.elim (fun c => [c]) e := by
      funext x
      rcases x with c | j
      · rfl
      · cases j <;> rfl
    rw [stringReplace, replaceFrom_pending (h .params (by decide)) hn, hshown]
    rfl
  conv_lhs => rw [← hfirst]
  simp only [replaceAll, Placeholder.all, List.foldlM_cons, List.foldlM_nil, Option.bind_eq_bind]
  rw [hpass .table (by decide) .fields fun j => by cases j <;> rfl, Option.bind_some,
    hpass .fields (by decide) .columns fun j => by cases j <;> rfl, Option.bind_some,
    hpass .columns (by decide) .column fun j => by cases j <;> rfl, Option.bind_some,
    hpass .column (by decide) .questions fun j => by cases j <;> rfl, Option.bind_some,
    hpass .questions (by decide) .params fun j => by cases j <;> rfl, Option.bind_some, hlast]
  rfl

/-- If no pass finds anything but the placeholders of the template, the substitution comes to an
end with what one pass over the template gives. -/
theorem stringSubstitutes_once {τ : Type*} (affinity : τ → Bytes) {query : Bytes}
    {fieldMap : List (Bytes × τ)} {tableName columnsOverride : Bytes}
    (h : Undisturbed (expansion affinity fieldMap tableName columnsOverride) query) :
    ∃ n, ∀ m ≥ n, stringSubstitutes affinity m query fieldMap tableName columnsOverride =
      some (substituteOnce (expansion affinity fieldMap tableName columnsOverride) query) :=
  ⟨(tokens 0 query).length + 1, fun _ hm => replaceAll_eq h hm⟩

/-- The statement that inserts events with two fields. -/
theorem stringSubstitutes_once_insert :
    ∃ n, ∀ m ≥ n, stringSubstitutes (fun _ : Unit => ascii "TEXT") m
      (ascii "INSERT INTO :TABLE (:COLUMNS) VALUES (:QUESTIONS)")
      [(ascii "uri", ()), (ascii "ip", ())] (ascii "hits") [] =
        some (substituteOnce (expansion (fun _ : Unit => ascii "TEXT")
          [(ascii "uri", ()), (ascii "ip", ())] (ascii "hits") [])
          (ascii "INSERT INTO :TABLE (:COLUMNS) VALUES (:QUESTIONS)")) :=
  stringSubstitutes_once (fun _ : Unit => ascii "TEXT") (by decide +kernel)

/-! ### Endless loops -/

lemma findText_eq_none : findText search s = none ↔ ¬ search <:+: s := by
  induction s with
  | nil =>
    rw [findText.eq_def]
    split_ifs with hprefix
    · refine iff_of_false (fun h => by cases h) (not_not_intro ?_)
      exact (List.isPrefixOf_iff_prefix.1 hprefix).isInfix
    · refine iff_of_true rfl fun h => hprefix ?_
      rw [List.infix_nil.1 h]
      rfl
  | cons c s ih =>
    rw [findText.eq_def]
    split_ifs with hprefix
    · refine iff_of_false (fun h => by cases h) (not_not_intro ?_)
      exact (List.isPrefixOf_iff_prefix.1 hprefix).isInfix
    · dsimp only
      rw [Option.map_eq_none_iff, ih, List.infix_cons_iff, or_iff_right fun h =>
        hprefix (List.isPrefixOf_iff_prefix.2 h)]

/-- If what is inserted has what is searched for, the loop does not end once it has begun. -/
lemma replaceFrom_endless (hsub : search <:+: substitute) (hs : search <:+: s) (n : ℕ)
    (done : Bytes) : replaceFrom search substitute n done s = none := by
  induction n generalizing done s with
  | zero => rfl
  | succ n ih =>
    rw [replaceFrom]
    cases hfind : findText search s with
    | none => exact absurd hs (findText_eq_none.1 hfind)
    | some found => exact ih (hsub.trans (List.prefix_append _ _).isInfix) _

/-- A table by the name of the placeholder for tables makes the loop endless. -/
theorem not_stringSubstitutes_once :
    ¬ ∀ (affinity : Unit → Bytes) (query : Bytes) (fieldMap : List (Bytes × Unit))
      (tableName columnsOverride : Bytes),
      ∃ n, ∀ m ≥ n, stringSubstitutes affinity m query fieldMap tableName columnsOverride =
        some (substituteOnce (expansion affinity fieldMap tableName columnsOverride) query) := by
  intro hall
  obtain ⟨n, hn⟩ := hall (fun _ => []) (ascii ":TABLE") [] (ascii ":TABLE") []
  have hend := hn n le_rfl
  have hinfix : Placeholder.table.text <:+: ascii ":TABLE" := List.infix_rfl
  rw [stringSubstitutes, replaceAll, Placeholder.all, List.foldlM_cons, stringReplace] at hend
  have hnone := replaceFrom_endless hinfix hinfix n []
  change (replaceFrom Placeholder.table.text (ascii ":TABLE") n [] (ascii ":TABLE")).bind _ = _
    at hend
  rw [hnone] at hend
  cases hend

/-- Text that is inserted can be replaced in such a way that the result is right: here the name of
the table makes a placeholder longer, and what stands for that has the same letter at its end. -/
theorem stringSubstitutes_although_disturbed :
    ¬ Undisturbed (expansion (fun _ : Unit => []) [(ascii "x", ())] (ascii "S") (ascii "xS"))
        (ascii ":COLUMN:TABLE") ∧
      stringSubstitutes (fun _ : Unit => []) 3 (ascii ":COLUMN:TABLE") [(ascii "x", ())]
          (ascii "S") (ascii "xS") =
        some (substituteOnce (expansion (fun _ : Unit => []) [(ascii "x", ())] (ascii "S")
          (ascii "xS")) (ascii ":COLUMN:TABLE")) := by
  decide +kernel

end PionCore.Platform
