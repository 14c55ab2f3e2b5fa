/-
# The plug-in manager

`PluginManager::find` looks for the plug-in whose identifier is the longest path prefix of a
resource.  It goes down through the map of the identifiers and gives up early: at an identifier
that the resource does not begin with, unless the one in front of it is shorter.
-/
import PionCore.Lib.Ascii
import PionCore.Lib.PathPrefix

namespace PionCore.Common

open PionCore.Lib

/-- `PluginManager`: the objects and the libraries they come from, by their identifiers. -/
structure PluginManager (ι L : Type*) where
  pluginMap : Std.TreeMap Bytes (ι × L) := {}

namespace PluginManager

variable {ι L : Type*}

/-- `add`, of an object whose library is `plugin`. -/
def add (m : PluginManager ι L) (pluginId : Bytes) (object : ι) (plugin : L) :
    PluginManager ι L :=
  { m with pluginMap := m.pluginMap.insertIfNew pluginId (object, plugin) }

/-- The loop of `find` over the entries that are left, the last of them first. -/
def search (resource : Bytes) : List (Bytes × (ι × L)) → Option ι
  | [] => none
  | i :: rest =>
      if ¬ i.1 <+: resource then
        match rest with
        | [] => none
        | j :: _ => if j.1.length < i.1.length then search resource rest else none
      else if resource.length = i.1.length ∨ resource[i.1.length]? = some 47 then some i.2.1
      else search resource rest

/-- `find`; `none` is `NULL`. -/
def find (m : PluginManager ι L) (resource : Bytes) : Option ι :=
  if m.pluginMap.isEmpty then none else search resource (entriesUpTo m.pluginMap resource)

/-- What `find` is meant to do: it returns the object of the longest identifier that is a path
prefix of the resource, and `NULL` if there is none. -/
def FindsLongest (m : PluginManager ι L) (resource : Bytes) : Prop :=
  (∀ object, m.find resource = some object →
    ∃ s plugin, IsLongestPathPrefix 47 {k | k ∈ m.pluginMap} resource s ∧
      m.pluginMap[s]? = some (object, plugin)) ∧
  (m.find resource = none ↔ ∀ s ∈ m.pluginMap, ¬ IsPathPrefix 47 s resource)

/-- `j` is the last of the identifiers in front of `k`. -/
def IsPredecessor (m : PluginManager ι L) (j k : Bytes) : Prop :=
  j ∈ m.pluginMap ∧ compare j k = .lt ∧
    ∀ i ∈ m.pluginMap, compare i k = .lt → (compare i j).isLE = true

/-- An identifier between the path prefixes of the resource and the resource, which does not
begin with it, is longer than the identifier in front of it. -/
def Unhidden (m : PluginManager ι L) (resource : Bytes) : Prop :=
  ∀ k ∈ m.pluginMap, (compare k resource).isLE = true → ¬ k <+: resource →
    (∃ s ∈ m.pluginMap, IsPathPrefix 47 s resource) →
    (∀ s ∈ m.pluginMap, IsPathPrefix 47 s resource → compare s k = .lt) →
    ∀ j, m.IsPredecessor j k → j.length < k.length

/-! ### The loop -/

section Search

variable {resource : Bytes} {i j : Bytes × (ι × L)} {a b rest : List (Bytes × (ι × L))}

lemma search_path (h : IsPathPrefix 47 i.1 resource) :
    search resource (i :: rest) = some i.2.1 := by
  obtain ⟨hpre, hend⟩ := isPathPrefix_iff.1 h
  rw [search.eq_def]
  exact (if_neg (not_not.2 hpre)).trans (if_pos hend)

lemma search_beginning (hpre : i.1 <+: resource) (h : ¬ IsPathPrefix 47 i.1 resource) :
    search resource (i :: rest) = search resource rest := by
  rw [search.eq_def]
  exact (if_neg (not_not.2 hpre)).trans
    (if_neg fun hend => h (isPathPrefix_iff.2 ⟨hpre, hend⟩))

lemma search_shorter (hpre : ¬ i.1 <+: resource) (h : j.1.length < i.1.length) :
    search resource (i :: j :: rest) = search resource (j :: rest) := by
  rw [search, if_pos hpre]
  exact if_pos h

lemma search_stop (hpre : ¬ i.1 <+: resource) (h : ¬ j.1.length < i.1.length) :
    search resource (i :: j :: rest) = none := by
  rw [search, if_pos hpre]
  exact if_neg h

lemma search_single (hpre : ¬ i.1 <+: resource) : search resource [i] = none := by
  rw [search, if_pos hpre]

/-- What is found is a path prefix, and nothing that was passed is one. -/
lemma search_eq_some {object : ι} {l : List (Bytes × (ι × L))}
    (h : search resource l = some object) :
    ∃ a e b, l = a ++ e :: b ∧ IsPathPrefix 47 e.1 resource ∧ object = e.2.1 ∧
      ∀ f ∈ a, ¬ IsPathPrefix 47 f.1 resource := by
  induction l with
  | nil => cases h
  | cons i rest ih =>
    by_cases hpath : IsPathPrefix 47 i.1 resource
    · rw [search_path hpath] at h
      exact ⟨[], i, rest, rfl, hpath, (Option.some.inj h).symm, by simp⟩
    · -- the loop goes on with the rest
      have hrest : search resource rest = some object := by
        by_cases hpre : i.1 <+: resource
        · rwa [search_beginning hpre hpath] at h
        · cases rest with
          | nil => rw [search_single hpre] at h; cases h
          | cons j rest =>
            by_cases hlt : j.1.length < i.1.length
            · rwa [search_shorter hpre hlt] at h
            · rw [search_stop hpre hlt] at h; cases h
      obtain ⟨a, e, b, rfl, he, hobject, ha⟩ := ih hrest
      exact ⟨i :: a, e, b, rfl, he, hobject, List.forall_mem_cons.2 ⟨hpath, ha⟩⟩

/-- Where the loop finds nothing, there is no path prefix, or it gave up in front of one. -/
lemma search_eq_none {l : List (Bytes × (ι × L))} (h : search resource l = none) :
    (∀ e ∈ l, ¬ IsPathPrefix 47 e.1 resource) ∨
      ∃ a k j b, l = a ++ k :: j :: b ∧ (∀ e ∈ a, ¬ IsPathPrefix 47 e.1 resource) ∧
        ¬ k.1 <+: resource ∧ ¬ j.1.length < k.1.length := by
  induction l with
  | nil => exact .inl (by simp)
  | cons i rest ih =>
    by_cases hpath : IsPathPrefix 47 i.1 resource
    · rw [search_path hpath] at h
      cases h
    · have hgo : search resource rest = none →
          (∀ e ∈ i :: rest, ¬ IsPathPrefix 47 e.1 resource) ∨
            ∃ a k j b, i :: rest = a ++ k :: j :: b ∧
              (∀ e ∈ a, ¬ IsPathPrefix 47 e.1 resource) ∧ ¬ k.1 <+: resource ∧
              ¬ j.1.length < k.1.length := by
        intro hrest
        rcases ih hrest with hnone | ⟨a, k, j, b, rfl, ha, hk, hj⟩
        · exact .inl (List.forall_mem_cons.2 ⟨hpath, hnone⟩)
        · exact .inr ⟨i :: a, k, j, b, rfl, List.forall_mem_cons.2 ⟨hpath, ha⟩, hk, hj⟩
      by_cases hpre : i.1 <+: resource
      · rw [search_beginning hpre hpath] at h
        exact hgo h
      · cases rest with
        | nil => exact .inl (by simpa using hpath)
        | cons j rest =>
          by_cases hlt : j.1.length < i.1.length
          · rw [search_shorter hpre hlt] at h
            exact hgo h
          · exact .inr ⟨[], i, j, rest, rfl, by simp, hpre, hlt⟩

/-- Where the loop can give up, nothing is found behind. -/
lemma search_hidden (ha : ∀ e ∈ a, ¬ IsPathPrefix 47 e.1 resource) (hi : ¬ i.1 <+: resource)
    (hj : ¬ j.1.length < i.1.length) : search resource (a ++ i :: j :: b) = none := by
  induction a with
  | nil => exact search_stop hi hj
  | cons e a ih =>
    obtain ⟨he, ha⟩ := List.forall_mem_cons.1 ha
    by_cases hpre : e.1 <+: resource
    · rw [List.cons_append, search_beginning hpre he]
      exact ih ha
    · obtain ⟨f, l, hl⟩ : ∃ f l, a ++ i :: j :: b = f :: l := by
        cases a with
        | nil => exact ⟨i, j :: b, rfl⟩
        | cons f a => exact ⟨f, a ++ i :: j :: b, rfl⟩
      have ih := ih ha
      rw [hl] at ih
      rw [List.cons_append, hl]
      by_cases hlt : f.1.length < e.1.length
      · rw [search_shorter hpre hlt, ih]
      · exact search_stop hpre hlt

end Search

/-! ### The identifiers -/

variable {m : PluginManager ι L} {resource : Bytes}

lemma find_eq : m.find resource = search resource (entriesUpTo m.pluginMap resource) := by
  rw [find]
  split_ifs with hempty
  · have hnil : m.pluginMap.toList = [] := by
      rw [← List.isEmpty_iff, Std.TreeMap.isEmpty_toList, hempty]
    rw [entriesUpTo, hnil]
    rfl
  · rfl

lemma mem_entriesUpTo_of_isPathPrefix {s : Bytes} (hs : s ∈ m.pluginMap)
    (h : IsPathPrefix 47 s resource) :
    (s, m.pluginMap[s]) ∈ entriesUpTo m.pluginMap resource :=
  mem_entriesUpTo.2 ⟨Std.TreeMap.getElem?_eq_some_getElem hs, isLE_of_isPrefix h.isPrefix⟩

lemma mem_of_mem_entriesUpTo {e : Bytes × (ι × L)}
    (h : e ∈ entriesUpTo m.pluginMap resource) : e.1 ∈ m.pluginMap := by
  rw [Std.TreeMap.mem_iff_isSome_getElem?, (mem_entriesUpTo.1 h).1]
  rfl

/-- What is found is always right. -/
lemma find_eq_some {object : ι} (h : m.find resource = some object) :
    ∃ s plugin, IsLongestPathPrefix 47 {k | k ∈ m.pluginMap} resource s ∧
      m.pluginMap[s]? = some (object, plugin) := by
  rw [find_eq] at h
  obtain ⟨a, ⟨s, object, plugin⟩, b, hsplit, hs, rfl, ha⟩ := search_eq_some h
  have hmem : (s, object, plugin) ∈ entriesUpTo m.pluginMap resource := by rw [hsplit]; simp
  exact ⟨s, plugin, isLongestPathPrefix_of_entriesUpTo hsplit hs ha, (mem_entriesUpTo.1 hmem).1⟩

/-- Neighbours of the list are neighbours in the map. -/
lemma isPredecessor_of_entriesUpTo {a b : List (Bytes × (ι × L))} {k j : Bytes × (ι × L)}
    (h : entriesUpTo m.pluginMap resource = a ++ k :: j :: b) : m.IsPredecessor j.1 k.1 := by
  have hpair := pairwise_entriesUpTo (m := m.pluginMap) (k := resource)
  rw [h] at hpair
  obtain ⟨-, hkb, hak⟩ := List.pairwise_append.1 hpair
  obtain ⟨hk, hjb⟩ := List.pairwise_cons.1 hkb
  refine ⟨mem_of_mem_entriesUpTo (by rw [h]; simp), hk j (by simp), fun i hi hik => ?_⟩
  have hkmem : k ∈ entriesUpTo m.pluginMap resource := by rw [h]; simp
  have hin : (i, m.pluginMap[i]) ∈ entriesUpTo m.pluginMap resource :=
    mem_entriesUpTo.2 ⟨Std.TreeMap.getElem?_eq_some_getElem hi,
      Std.TransCmp.isLE_trans (by rw [hik]; rfl) (mem_entriesUpTo.1 hkmem).2⟩
  rw [h] at hin
  rcases List.mem_append.1 hin with hin | hin
  · have hgt : compare k.1 i = .lt := hak _ hin k List.mem_cons_self
    exact absurd hik (Std.OrientedCmp.not_lt_of_lt hgt)
  · rcases List.mem_cons.1 hin with heq | hin
    · rw [← heq, Std.ReflOrd.compare_self] at hik
      cases hik
    · rcases List.mem_cons.1 hin with heq | hin
      · rw [← heq, Std.ReflOrd.compare_self]
        rfl
      · rw [(List.pairwise_cons.1 hjb).1 _ hin]
        rfl

/-- A path prefix in front of an identifier of the list stands behind it in the list. -/
lemma exists_neighbour {k s : Bytes} (hk : k ∈ m.pluginMap)
    (hle : (compare k resource).isLE = true) (hs : s ∈ m.pluginMap)
    (hlt : compare s k = .lt) :
    ∃ a j b, entriesUpTo m.pluginMap resource = a ++ (k, m.pluginMap[k]) :: j :: b := by
  have hkmem : (k, m.pluginMap[k]) ∈ entriesUpTo m.pluginMap resource :=
    mem_entriesUpTo.2 ⟨Std.TreeMap.getElem?_eq_some_getElem hk, hle⟩
  have hsmem : (s, m.pluginMap[s]) ∈ entriesUpTo m.pluginMap resource :=
    mem_entriesUpTo.2 ⟨Std.TreeMap.getElem?_eq_some_getElem hs,
      Std.TransCmp.isLE_trans (by rw [hlt]; rfl) hle⟩
  obtain ⟨a, rest, hsplit⟩ := List.append_of_mem hkmem
  have hpair := pairwise_entriesUpTo (m := m.pluginMap) (k := resource)
  rw [hsplit] at hpair hsmem
  cases rest with
  | cons j b => exact ⟨a, j, b, hsplit⟩
  | nil =>
    rcases List.mem_append.1 hsmem with hin | hin
    · have hgt : compare k s = .lt :=
        (List.pairwise_append.1 hpair).2.2 _ hin _ List.mem_cons_self
      exact absurd hlt (Std.OrientedCmp.not_lt_of_lt hgt)
    · have heq : s = k := congrArg Prod.fst (List.mem_singleton.1 hin)
      rw [heq, Std.ReflOrd.compare_self] at hlt
      cases hlt

/-- `find` is right unless a path prefix is hidden by an identifier behind it. -/
theorem find_longest_iff (m : PluginManager ι L) (resource : Bytes) :
    m.FindsLongest resource ↔ m.Unhidden resource := by
  constructor
  · rintro ⟨-, hnone⟩ k hk hle hpre ⟨s, hs, hpath⟩ hlt j hj
    by_contra hlength
    obtain ⟨a, i, b, hsplit⟩ := exists_neighbour hk hle hs (hlt s hs hpath)
    have hpred := isPredecessor_of_entriesUpTo hsplit
    -- the identifier in front of another one is determined
    have hij : j = i.1 := Std.LawfulEqCmp.eq_of_compare
      (Std.OrientedCmp.isLE_antisymm (hpred.2.2 j hj.1 hj.2.1) (hj.2.2 i.1 hpred.1 hpred.2.1))
    have ha : ∀ e ∈ a, ¬ IsPathPrefix 47 e.1 resource := by
      intro e he hpath
      have hpair := pairwise_entriesUpTo (m := m.pluginMap) (k := resource)
      rw [hsplit] at hpair
      have hgt : compare k e.1 = .lt := (List.pairwise_append.1 hpair).2.2 e he _ List.mem_cons_self
      have hmem : e.1 ∈ m.pluginMap := mem_of_mem_entriesUpTo (by rw [hsplit]; simp [he])
      exact absurd (hlt e.1 hmem hpath) (Std.OrientedCmp.not_lt_of_lt hgt)
    have hsearch : m.find resource = none := by
      rw [find_eq, hsplit]
      exact search_hidden ha hpre (by rwa [← hij])
    exact hnone.1 hsearch s hs hpath
  · intro h
    refine ⟨fun object => find_eq_some, ⟨fun hnone s hs hpath => ?_, fun hall => ?_⟩⟩
    · rw [find_eq] at hnone
      have hsmem := mem_entriesUpTo_of_isPathPrefix hs hpath
      rcases search_eq_none hnone with hall | ⟨a, k, j, b, hsplit, ha, hk, hj⟩
      · exact hall _ hsmem hpath
      · have hkmem : k ∈ entriesUpTo m.pluginMap resource := by rw [hsplit]; simp
        refine hj (h k.1 (mem_of_mem_entriesUpTo hkmem) (mem_entriesUpTo.1 hkmem).2 hk
          ⟨s, hs, hpath⟩ (fun t ht htpath => ?_) j.1 (isPredecessor_of_entriesUpTo hsplit))
        have htmem := mem_entriesUpTo_of_isPathPrefix ht htpath
        have hpair := pairwise_entriesUpTo (m := m.pluginMap) (k := resource)
        rw [hsplit] at htmem hpair
        rcases List.mem_append.1 htmem with hin | hin
        · exact absurd htpath (ha _ hin)
        · rcases List.mem_cons.1 hin with heq | hin
          · exact absurd (by rw [← heq]; exact htpath.isPrefix) hk
          · exact (List.pairwise_cons.1 (List.pairwise_append.1 hpair).2.1).1 _ hin
    · cases hfind : m.find resource with
      | none => rfl
      | some object =>
        obtain ⟨s, plugin, hs, -⟩ := find_eq_some hfind
        exact absurd hs.isPathPrefix (hall s hs.mem)

/-- `/a/b` is no shorter than `/a/c`, which hides `/a` from `/a/x`. -/
theorem find_hidden :
    ¬ (((({} : PluginManager ℕ Unit).add (ascii "/a") 0 ()).add (ascii "/a/b") 1 ()).add
      (ascii "/a/c") 2 ()).FindsLongest (ascii "/a/x") := by
  rintro ⟨-, hnone⟩
  exact hnone.1 (by decide +kernel) (ascii "/a") (by decide +kernel) (by decide +kernel)

end PluginManager

end PionCore.Common
