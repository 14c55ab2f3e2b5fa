/-
# Paths

A path is a word in which a separator stands between its components.  The lexical normal form has
each separator once, no component for the directory itself, and components for the parent
directory at the beginning only.
-/
import Mathlib.Data.List.Basic
import Mathlib.Tactic.Common

namespace PionCore.Lib

variable {β : Type*} [DecidableEq β] (sep dot : β)

/-- The components of a path, behind the beginning of the first of them. -/
def componentsFrom : List β → List β → List (List β)
  | acc, [] => if acc = [] then [] else [acc]
  | acc, b :: p =>
      if b = sep then (if acc = [] then [] else [acc]) ++ componentsFrom [] p
      else componentsFrom (acc ++ [b]) p

/-- The components of a path. -/
def components (p : List β) : List (List β) := componentsFrom sep [] p

/-- The path begins at the root. -/
def isRooted (p : List β) : Bool := p.head? = some sep

/-- Put components together to a path. -/
def joinComponents : List (List β) → List β
  | [] => []
  | [c] => c
  | c :: d :: cs => c ++ sep :: joinComponents (d :: cs)

/-- The name of the parent directory. -/
def up : List β := [dot, dot]

/-- Go on to a component from the directory that some components lead to. -/
def push (rooted : Bool) (cs : List (List β)) (c : List β) : List (List β) :=
  if c = [dot] then cs
  else if c = up dot then
    match cs.getLast? with
    | none => if rooted then [] else [c]
    | some last => if last = up dot then cs ++ [c] else cs.dropLast
  else cs ++ [c]

/-- The components of the normal form. -/
def normalComponents (p : List β) : List (List β) :=
  (components sep p).foldl (push dot (isRooted sep p)) []

/-- The lexical normal form of a path. -/
def normalize (p : List β) : List β :=
  let cs := normalComponents sep dot p
  if isRooted sep p then sep :: joinComponents sep cs
  else if cs = [] then [dot] else joinComponents sep cs

/-! ### Components -/

variable {sep dot}

lemma componentsFrom_sep (acc u v : List β) :
    componentsFrom sep acc (u ++ sep :: v) = componentsFrom sep acc u ++ components sep v := by
  induction u generalizing acc with
  | nil => simp [componentsFrom, components]
  | cons b u ih =>
    rw [List.cons_append, componentsFrom, componentsFrom]
    split_ifs with hb hacc
    · rw [ih]
      rfl
    · rw [ih, List.append_assoc]
    · exact ih _

/-- A separator ends a component. -/
lemma components_sep (u v : List β) :
    components sep (u ++ sep :: v) = components sep u ++ components sep v :=
  componentsFrom_sep [] u v

lemma components_cons (v : List β) : components sep (sep :: v) = components sep v :=
  components_sep [] v

lemma componentsFrom_word {c : List β} (hc : sep ∉ c) (acc : List β) (h : acc ++ c ≠ []) :
    componentsFrom sep acc c = [acc ++ c] := by
  induction c generalizing acc with
  | nil =>
    rw [List.append_nil] at h ⊢
    simp [componentsFrom, h]
  | cons b c ih =>
    have hb : b ≠ sep := fun hb => hc (by simp [hb])
    rw [componentsFrom, if_neg hb, ih (fun hmem => hc (List.mem_cons_of_mem b hmem)) _ (by simp)]
    simp

/-- A word without separators is one component. -/
lemma components_word {c : List β} (hc : sep ∉ c) (hne : c ≠ []) : components sep c = [c] :=
  componentsFrom_word hc [] hne

lemma mem_componentsFrom {acc p c : List β} (hacc : sep ∉ acc)
    (h : c ∈ componentsFrom sep acc p) : c ≠ [] ∧ sep ∉ c := by
  have hlast : c ∈ (if acc = [] then [] else [acc]) → c ≠ [] ∧ sep ∉ c := by
    intro h
    split_ifs at h with hnil
    · simp at h
    · rw [List.mem_singleton.1 h]
      exact ⟨hnil, hacc⟩
  induction p generalizing acc with
  | nil => exact hlast h
  | cons b p ih =>
    rw [componentsFrom] at h
    split_ifs at h with hb hnil
    · exact ih (by simp : sep ∉ ([] : List β)) h (by simp)
    · rcases List.mem_append.1 h with h | h
      · exact hlast (by rwa [if_neg hnil])
      · exact ih (by simp : sep ∉ ([] : List β)) h (by simp)
    · have hsnoc : sep ∉ acc ++ [b] := by
        simp only [List.mem_append, List.mem_singleton, not_or]
        exact ⟨hacc, fun h => hb h.symm⟩
      refine ih hsnoc h fun hmem => ?_
      rw [if_neg (by simp), List.mem_singleton] at hmem
      rw [hmem]
      exact ⟨by simp, hsnoc⟩

/-- Components are not empty, and have no separators. -/
lemma mem_components {p c : List β} (h : c ∈ components sep p) : c ≠ [] ∧ sep ∉ c :=
  mem_componentsFrom (by simp) h

lemma components_joinComponents {cs : List (List β)} (hcs : ∀ c ∈ cs, c ≠ [] ∧ sep ∉ c) :
    components sep (joinComponents sep cs) = cs := by
  induction cs with
  | nil => rfl
  | cons c cs ih =>
    have hc := hcs c List.mem_cons_self
    cases cs with
    | nil => exact components_word hc.2 hc.1
    | cons d cs =>
      rw [joinComponents, components_sep, components_word hc.2 hc.1,
        ih fun e he => hcs e (List.mem_cons_of_mem c he)]
      rfl

/-- A path that does not end in a separator ends in a component that can be continued. -/
lemma componentsFrom_append {u acc : List β} (hlast : u.getLast? ≠ some sep)
    (hne : u = [] → acc ≠ []) :
    ∃ cs c, c ≠ [] ∧ ∀ v, componentsFrom sep acc (u ++ v) = cs ++ componentsFrom sep c v := by
  induction u generalizing acc with
  | nil => exact ⟨[], acc, hne rfl, fun _ => rfl⟩
  | cons b u ih =>
    have hlast' : u.getLast? ≠ some sep := by
      cases u with
      | nil => simp
      | cons b' u => simpa using hlast
    by_cases hb : b = sep
    · have hu : u = [] → ([] : List β) ≠ [] := by
        rintro rfl
        exact absurd (by simp [hb]) hlast
      obtain ⟨cs, c, hc, hcs⟩ := ih hlast' hu
      refine ⟨(if acc = [] then [] else [acc]) ++ cs, c, hc, fun v => ?_⟩
      rw [List.cons_append, componentsFrom, if_pos hb, hcs, List.append_assoc]
    · have hsnoc : u = [] → acc ++ [b] ≠ [] := fun _ => by simp
      obtain ⟨cs, c, hc, hcs⟩ := ih hlast' hsnoc
      refine ⟨cs, c, hc, fun v => ?_⟩
      rw [List.cons_append, componentsFrom, if_neg hb, hcs]

lemma componentsFrom_head {acc : List β} (hne : acc ≠ []) (v : List β) :
    ∃ w cs, componentsFrom sep acc v = (acc ++ w) :: cs := by
  induction v generalizing acc with
  | nil => exact ⟨[], [], by simp [componentsFrom, hne]⟩
  | cons b v ih =>
    by_cases hb : b = sep
    · exact ⟨[], components sep v, by simp [componentsFrom, hb, hne, components]⟩
    · obtain ⟨w, cs, h⟩ := ih (by simp : acc ++ [b] ≠ [])
      exact ⟨b :: w, cs, by simp [componentsFrom, hb, h]⟩

/-- A path that is continued without a separator has another last component. -/
lemma components_continued {u v : List β} {b : β} (hne : u ≠ []) (hlast : u.getLast? ≠ some sep)
    (hb : b ≠ sep) (cs : List (List β)) :
    components sep (u ++ b :: v) ≠ components sep u ++ cs := by
  obtain ⟨ds, c, hc, hds⟩ := componentsFrom_append hlast (fun h => absurd h hne : u = [] → ([] : List β) ≠ [])
  have hu : components sep u = ds ++ [c] := by
    have h := hds []
    rw [List.append_nil] at h
    rw [components, h]
    simp [componentsFrom, hc]
  obtain ⟨w, es, hw⟩ := componentsFrom_head (by simp : c ++ [b] ≠ []) v
  have huv : components sep (u ++ b :: v) = ds ++ (c ++ [b] ++ w) :: es := by
    rw [components, hds, componentsFrom, if_neg hb, hw]
  intro h
  rw [huv, hu, List.append_assoc ds [c] cs, List.singleton_append] at h
  have hhead := (List.cons.inj (List.append_cancel_left h)).1
  have hlength := congrArg List.length hhead
  simp only [List.length_append, List.length_singleton] at hlength
  omega

/-! ### Normal forms -/

/-- The components of a normal form: first those that lead upwards, and none of them from the
root. -/
def IsNormal (dot : β) (rooted : Bool) (cs : List (List β)) : Prop :=
  ∃ k names, cs = List.replicate k (up dot) ++ names ∧ (rooted = true → k = 0) ∧
    ∀ c ∈ names, c ≠ [dot] ∧ c ≠ up dot

lemma isNormal_push {rooted : Bool} {cs : List (List β)} (h : IsNormal dot rooted cs)
    (c : List β) : IsNormal dot rooted (push dot rooted cs c) := by
  obtain ⟨k, names, rfl, hrooted, hnames⟩ := h
  by_cases hdot : c = [dot]
  · rw [push, if_pos hdot]
    exact ⟨k, names, rfl, hrooted, hnames⟩
  rw [push, if_neg hdot]
  by_cases hup : c = up dot
  · rw [if_pos hup]
    rcases List.eq_nil_or_concat names with rfl | ⟨names, last, rfl⟩
    · -- there are only components that lead upwards, and there is one more
      cases k with
      | zero =>
        cases rooted with
        | true => exact ⟨0, [], rfl, fun _ => rfl, by simp⟩
        | false => exact ⟨1, [], by simp [hup], fun h => absurd h Bool.false_ne_true, by simp⟩
      | succ k =>
        have hlast : (List.replicate (k + 1) (up dot) ++ []).getLast? = some (up dot) := by
          simp [List.getLast?_replicate]
        rw [hlast]
        simp only [if_true]
        refine ⟨k + 2, [], ?_, fun h => ?_, by simp⟩
        · simp [hup, List.replicate_succ']
        · exact absurd (hrooted h) (Nat.succ_ne_zero k)
    · rw [List.concat_eq_append] at hnames ⊢
      have hlast : (List.replicate k (up dot) ++ (names ++ [last])).getLast? = some last := by
        simp
      rw [hlast]
      have hne := (hnames last (by simp)).2
      simp only [if_neg hne]
      refine ⟨k, names, ?_, hrooted, fun c hc => hnames c (by simp [hc])⟩
      rw [← List.append_assoc, List.dropLast_concat]
  · rw [if_neg hup]
    refine ⟨k, names ++ [c], by simp, hrooted, fun d hd => ?_⟩
    rcases List.mem_append.1 hd with hd | hd
    · exact hnames d hd
    · rw [List.mem_singleton.1 hd]
      exact ⟨hdot, hup⟩

lemma isNormal_foldl {rooted : Bool} {cs : List (List β)} (h : IsNormal dot rooted cs)
    (ds : List (List β)) : IsNormal dot rooted (ds.foldl (push dot rooted) cs) := by
  induction ds generalizing cs with
  | nil => exact h
  | cons d ds ih => exact ih (isNormal_push h d)

/-- A normal form stays as it is. -/
lemma foldl_push_of_isNormal {rooted : Bool} {cs : List (List β)} (h : IsNormal dot rooted cs) :
    cs.foldl (push dot rooted) [] = cs := by
  obtain ⟨k, names, rfl, hrooted, hnames⟩ := h
  have hup : ∀ j, (rooted = true → j = 0) →
      (List.replicate j (up dot)).foldl (push dot rooted) [] = List.replicate j (up dot) := by
    intro j hj
    induction j with
    | zero => rfl
    | succ j ih =>
      have hfalse : rooted = false := by
        by_contra h
        exact absurd (hj (by simpa using h)) (Nat.succ_ne_zero j)
      rw [List.replicate_succ', List.foldl_append, ih fun h => by simp [hfalse] at h]
      cases j with
      | zero => simp [push, up, hfalse]
      | succ j => simp [push, up, List.getLast?_replicate]
  have hrest : ∀ (ds : List (List β)) (names : List (List β)),
      (∀ c ∈ names, c ≠ [dot] ∧ c ≠ up dot) →
        names.foldl (push dot rooted) ds = ds ++ names := by
    intro ds names hnames
    induction names generalizing ds with
    | nil => simp
    | cons c names ih =>
      have hc := hnames c List.mem_cons_self
      rw [List.foldl_cons, push, if_neg hc.1, if_neg hc.2,
        ih _ fun d hd => hnames d (List.mem_cons_of_mem c hd)]
      simp
  rw [List.foldl_append, hup k hrooted, hrest _ names hnames]

lemma mem_push {rooted : Bool} {c d : List β} {cs : List (List β)}
    (h : c ∈ push dot rooted cs d) : c ∈ cs ∨ c = d := by
  have hsnoc : c ∈ cs ++ [d] → c ∈ cs ∨ c = d := fun h => by simpa using h
  by_cases hdot : d = [dot]
  · rw [push, if_pos hdot] at h
    exact Or.inl h
  by_cases hup : d = up dot
  · rw [push, if_neg hdot, if_pos hup] at h
    cases hlast : cs.getLast? with
    | none =>
      cases rooted with
      | true => simp [hlast] at h
      | false => exact Or.inr (by simpa [hlast] using h)
    | some last =>
      simp only [hlast] at h
      split_ifs at h
      · exact hsnoc h
      · exact Or.inl ((List.dropLast_sublist cs).subset h)
  · rw [push, if_neg hdot, if_neg hup] at h
    exact hsnoc h

lemma mem_foldl_push {rooted : Bool} {c : List β} {cs ds : List (List β)}
    (h : c ∈ ds.foldl (push dot rooted) cs) : c ∈ cs ∨ c ∈ ds := by
  induction ds generalizing cs with
  | nil => exact Or.inl h
  | cons d ds ih =>
    rcases ih h with h | h
    · rcases mem_push h with h | rfl
      · exact Or.inl h
      · exact Or.inr List.mem_cons_self
    · exact Or.inr (List.mem_cons_of_mem d h)

lemma mem_normalComponents {p c : List β} (h : c ∈ normalComponents sep dot p) :
    c ≠ [] ∧ sep ∉ c := by
  rcases mem_foldl_push h with h | h
  · simp at h
  · exact mem_components h

lemma isNormal_normalComponents (p : List β) :
    IsNormal dot (isRooted sep p) (normalComponents sep dot p) :=
  isNormal_foldl ⟨0, [], rfl, fun _ => rfl, by simp⟩ _

/-- The normal form of a normal form is the same path. -/
theorem normalize_idem (hne : dot ≠ sep) (p : List β) :
    normalize sep dot (normalize sep dot p) = normalize sep dot p := by
  have hnormal := @isNormal_normalComponents _ _ sep dot p
  have hcs : ∀ c ∈ normalComponents sep dot p, c ≠ [] ∧ sep ∉ c :=
    fun c hc => mem_normalComponents hc
  set cs := normalComponents sep dot p with hdef
  have hfold := foldl_push_of_isNormal hnormal
  have hjoin := components_joinComponents hcs
  unfold normalize
  rw [← hdef]
  cases hr : isRooted sep p with
  | true =>
    have hroot : isRooted sep (sep :: joinComponents sep cs) = true := by simp [isRooted]
    have hsame : normalComponents sep dot (sep :: joinComponents sep cs) = cs := by
      rw [normalComponents, components_cons, hjoin, hroot, ← hr]
      exact hfold
    simp [hroot, hsame]
  | false =>
    by_cases hnil : cs = []
    · have hdots : isRooted sep [dot] = false := by simp [isRooted, hne]
      have hsame : normalComponents sep dot [dot] = [] := by
        rw [normalComponents, components_word (by simpa using hne.symm) (by simp)]
        simp [push]
      simp [hnil, hdots, hsame]
    · have hroot : isRooted sep (joinComponents sep cs) = false := by
        cases hc : cs with
        | nil => exact absurd hc hnil
        | cons c ds =>
          obtain ⟨hcne, hcsep⟩ := hcs c (by simp [hc])
          obtain ⟨b, c', rfl⟩ := List.exists_cons_of_ne_nil hcne
          have hb : b ≠ sep := fun hb => hcsep (by simp [hb])
          cases ds <;> simp [isRooted, joinComponents, hb]
      have hsame : normalComponents sep dot (joinComponents sep cs) = cs := by
        rw [normalComponents, hjoin, hroot, ← hr]
        exact hfold
      simp [hnil, hroot, hsame]

end PionCore.Lib
