/-
# Look-up of resources

The handler of a request is that of the longest registered resource that is a path prefix of the
requested one, and a resource needs authentication, or is free, if some listed one is a path prefix
of it.  Resources that only begin alike, such as `/ab` and `/a`, do not get in the way.
-/
import PionCore.Lib.PathPrefix
import PionCore.Net.HTTPServer

namespace PionCore.Net

open PionCore.Lib

lemma coversResource_iff {resource entry : Bytes} :
    coversResource resource entry = true ↔ IsPathPrefix 47 entry resource := by
  rw [isPathPrefix_iff]
  simp [coversResource]

/-- Every path prefix of the resource is tried. -/
lemma findResource_iff {resourceSet : AuthResourceSet} {resource : Bytes} :
    HTTPAuth.findResource resourceSet resource = true ↔
      ∃ s ∈ resourceSet, IsPathPrefix 47 s resource := by
  rw [HTTPAuth.findResource, List.any_reverse, List.any_eq_true]
  constructor
  · rintro ⟨s, hs, hcovers⟩
    exact ⟨s, Std.TreeSet.mem_toList.1 (List.mem_filter.1 hs).1, coversResource_iff.1 hcovers⟩
  · rintro ⟨s, hs, hpre⟩
    exact ⟨s, List.mem_filter.2 ⟨Std.TreeSet.mem_toList.2 hs, isLE_of_isPrefix hpre.isPrefix⟩,
      coversResource_iff.2 hpre⟩

namespace HTTPServer

variable {ι : Type*} {server : HTTPServer ι} {resource : Bytes} {handler : ι}

lemma findRequestHandler_eq_some (h : server.findRequestHandler resource = some handler) :
    ∃ s, IsLongestPathPrefix 47 {k | k ∈ server.resources} resource s ∧
      server.resources[s]? = some handler := by
  obtain ⟨⟨s, v⟩, hfound, rfl⟩ := Option.map_eq_some_iff.1 h
  change (entriesUpTo server.resources resource).find? _ = _ at hfound
  obtain ⟨hcovers, a, b, hsplit, hpassed⟩ := List.find?_eq_some_iff_append.1 hfound
  have hmem : (s, v) ∈ entriesUpTo server.resources resource := by rw [hsplit]; simp
  refine ⟨s, isLongestPathPrefix_of_entriesUpTo hsplit (coversResource_iff.1 hcovers) ?_,
    (mem_entriesUpTo.1 hmem).1⟩
  intro f hf hpre
  have hnot := hpassed f hf
  rw [coversResource_iff.2 hpre] at hnot
  cases hnot

lemma findRequestHandler_eq_none (h : server.findRequestHandler resource = none) {s : Bytes}
    (hs : s ∈ server.resources) : ¬ IsPathPrefix 47 s resource := by
  intro hpre
  rw [findRequestHandler, Option.map_eq_none_iff] at h
  change (entriesUpTo server.resources resource).find? _ = _ at h
  have hmem : (s, server.resources[s]) ∈ entriesUpTo server.resources resource :=
    mem_entriesUpTo.2
      ⟨Std.TreeMap.getElem?_eq_some_getElem hs, isLE_of_isPrefix hpre.isPrefix⟩
  exact List.find?_eq_none.1 h _ hmem (coversResource_iff.2 hpre)

/-- A request is dispatched to the longest path prefix of its resource, if there is one, and
resources are restricted, or permitted, by path prefixes. -/
theorem findRequestHandler_longest (server : HTTPServer ι) (resource : Bytes) :
    ((∃ handler, server.findRequestHandler resource = some handler) ↔
      ∃ s ∈ server.resources, IsPathPrefix 47 s resource) ∧
    (∀ handler, server.findRequestHandler resource = some handler →
      ∃ s, IsLongestPathPrefix 47 {k | k ∈ server.resources} resource s ∧
        server.resources[s]? = some handler) ∧
    ∀ resourceSet : AuthResourceSet, HTTPAuth.findResource resourceSet resource = true ↔
      ∃ s ∈ resourceSet, IsPathPrefix 47 s resource := by
  refine ⟨⟨?_, ?_⟩, fun _ h => findRequestHandler_eq_some h, fun _ => findResource_iff⟩
  · rintro ⟨handler, h⟩
    obtain ⟨s, hs, -⟩ := findRequestHandler_eq_some h
    exact ⟨s, hs.mem, hs.isPathPrefix⟩
  · rintro ⟨s, hs, hpre⟩
    cases h : server.findRequestHandler resource with
    | some handler => exact ⟨handler, rfl⟩
    | none => exact absurd hpre (findRequestHandler_eq_none h hs)

end HTTPServer

end PionCore.Net
