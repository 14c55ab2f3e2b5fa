/-
# What a vocabulary says about its terms

Without its references, a vocabulary is a function from identifiers to definitions.  Each call
that does not throw changes the function at one identifier.
-/
import Mathlib.Logic.Function.Basic
import PionCore.Platform.VocabularyCopy

namespace PionCore.Platform

open PionCore.Lib

namespace Vocabulary

/-- A type, a size, a format and a comment. -/
abbrev Definition := DataType × ℕ × Bytes × Bytes

/-- What `addTerm` defines. -/
def added (t : Term) : Definition := (t.termType, sizeOf t, t.termFormat, t.termComment)

/-- What `updateTerm` makes of a definition: only a term of another type gets a default size. -/
def redefined (t : Term) (old : Option Definition) : Definition :=
  if old.map Prod.fst = some t.termType then
    (t.termType, t.termSize, t.termFormat, t.termComment)
  else added t

/-- The definitions behind a call that does not throw. -/
def definedBy (old : Bytes → Option Definition) : Edit → Bytes → Option Definition
  | .addTerm t => Function.update old t.termId (some (added t))
  | .updateTerm t => Function.update old t.termId (some (redefined t (old t.termId)))
  | .removeTerm termId => Function.update old termId none

/-- The identifier that a call is about. -/
def Edit.termId : Edit → Bytes
  | .addTerm t | .updateTerm t => t.termId
  | .removeTerm termId => termId

lemma definedBy_of_ne {old : Bytes → Option Definition} {e : Edit} {termId : Bytes}
    (h : termId ≠ e.termId) : definedBy old e termId = old termId := by
  cases e <;> exact Function.update_of_ne h ..

variable {v w : Vocabulary}

lemma definition_isSome (v : Vocabulary) (termId : Bytes) :
    (v.definition termId).isSome = (v.findUri termId).isSome := Option.isSome_map

lemma definition_eq_none {termId : Bytes} :
    v.definition termId = none ↔ v.findUri termId = none := Option.map_eq_none_iff

lemma definition_of_findUri {termId : Bytes} {e : Bytes × ℕ} (h : v.findUri termId = some e) :
    v.definition termId = some ((v.get e.2).termType, (v.get e.2).termSize,
      (v.get e.2).termFormat, (v.get e.2).termComment) := by
  rw [definition, h]
  rfl

/-- Two vocabularies with the same entry for an identifier, and the same term there. -/
lemma definition_congr {termId : Bytes} (hfind : w.findUri termId = v.findUri termId)
    (hget : ∀ e, v.findUri termId = some e → w.get e.2 = v.get e.2) :
    w.definition termId = v.definition termId := by
  rw [definition, definition, hfind]
  cases h : v.findUri termId with
  | none => rfl
  | some e => rw [Option.map_some, Option.map_some, hget e h]

lemma Sound.lt_of_findUri (h : Sound v) {termId : Bytes} {e : Bytes × ℕ}
    (hfind : v.findUri termId = some e) : e.2 < v.refMap.length := by
  obtain ⟨-, t, ht, -⟩ := h.entry e (mem_of_findUri hfind).1
  exact (List.getElem?_eq_some_iff.1 ht).1

/-- Different identifiers have different positions. -/
lemma Sound.findUri_inj (h : Sound v) {i j : Bytes} {e f : Bytes × ℕ}
    (he : v.findUri i = some e) (hf : v.findUri j = some f) (hpos : e.2 = f.2) : i = j := by
  obtain ⟨hmem, rfl⟩ := mem_of_findUri he
  obtain ⟨hmem', rfl⟩ := mem_of_findUri hf
  obtain ⟨-, t, ht, hid, -⟩ := h.entry e hmem
  obtain ⟨-, u, hu, hid', -⟩ := h.entry f hmem'
  rw [hpos, hu] at ht
  obtain rfl := Option.some.inj ht
  exact hid.symm.trans hid'

lemma get_push_of_lt {t : Term} {n : ℕ} (hn : n < v.refMap.length) :
    (v.push t).get n = v.get n := by
  rw [get, push, List.getElem?_append_left hn, get]

lemma get_modify_of_ne {r n : ℕ} (hne : r ≠ n) {f : Term → Term} {uriMap : List (Bytes × ℕ)} :
    ({ v with refMap := v.refMap.modify r f, uriMap := uriMap } : Vocabulary).get n = v.get n := by
  simp only [get, List.getElem?_modify, if_neg hne, Option.map_eq_map, Option.map_id']

lemma definition_push (h : Sound v) (t : Term) :
    (v.push t).definition = Function.update v.definition t.termId (some (added t)) := by
  funext termId
  by_cases hid : termId = t.termId
  · subst hid
    rw [Function.update_self, definition_of_findUri (e := (t.termId, v.refMap.length))]
    · have hget : (v.push t).get v.refMap.length =
          { t with termRef := v.numTerms + 1, termSize := sizeOf t } := by
        rw [get, push, List.getElem?_concat_length]
        rfl
      rw [hget]
      rfl
    · rw [findUri_push, if_pos rfl]
  · rw [Function.update_of_ne hid]
    refine definition_congr ?_ fun e he => get_push_of_lt (h.lt_of_findUri he)
    rw [findUri_push, if_neg (Ne.symm hid)]

/-- Without the entry of an identifier, only this definition is missing. -/
lemma definition_eraseUri (v : Vocabulary) (termId : Bytes) :
    (v.eraseUri termId).definition = Function.update v.definition termId none := by
  funext i
  by_cases hi : i = termId
  · subst hi
    rw [Function.update_self, definition_eq_none, findUri_eraseUri, if_pos rfl]
  · rw [Function.update_of_ne hi]
    refine definition_congr ?_ fun e _ => rfl
    rw [findUri_eraseUri, if_neg (Ne.symm hi)]

/-- The definitions behind a call are those that the call makes. -/
theorem definition_edit (h : Indexed v) {e : Edit} (hx : v.thrown e = none) :
    (v.edit e).definition = definedBy v.definition e := by
  rcases edit_cases h e with ⟨-, ⟨x, hthrown⟩, -⟩ | ⟨t, rfl, -, -, -, he⟩ |
    ⟨termId, r, rfl, hfind, -, he⟩ | ⟨t, r, rfl, hfind, htype, -, he⟩ |
    ⟨t, r, rfl, hfind, htype, hid, -, he⟩
  · exact absurd (hx.symm.trans hthrown) (by simp)
  · rw [he, definition_push h.toSound]
    rfl
  · rw [he, definedBy, ← definition_eraseUri]
    funext i
    refine definition_congr rfl fun e hi => ?_
    -- no other identifier has the position of the removed term
    have hne : r ≠ e.2 := by
      rintro rfl
      rw [findUri_eraseUri] at hi
      split_ifs at hi with hsame
      exact hsame (h.findUri_inj hfind hi rfl)
    exact get_modify_of_ne hne
  · rw [he, definedBy]
    have hold : (v.definition t.termId).map Prod.fst = some t.termType := by
      rw [definition_of_findUri hfind, ← htype]
      rfl
    rw [redefined, if_pos hold]
    funext i
    by_cases hi : i = t.termId
    · subst hi
      rw [Function.update_self]
      have hlt := h.lt_of_findUri hfind
      have hget : ({ v with refMap := v.refMap.modify r (adopt t) } : Vocabulary).get r =
          adopt t (v.get r) := by
        rw [get, List.getElem?_modify_eq, getElem?_get hlt]
        rfl
      rw [definition_of_findUri (v := { v with refMap := v.refMap.modify r (adopt t) }) hfind, hget,
        adopt, htype]
    · rw [Function.update_of_ne hi]
      refine definition_congr rfl fun e he' => ?_
      have hne : r ≠ e.2 := by
        rintro rfl
        exact hi (h.findUri_inj he' hfind rfl)
      exact get_modify_of_ne hne
  · have hold : (v.definition t.termId).map Prod.fst ≠ some t.termType := by
      rw [definition_of_findUri hfind]
      exact fun heq => htype (Option.some.inj heq)
    rw [he, definition_push (h.eraseUri t.termId).toSound, definition_eraseUri, definedBy,
      redefined, if_neg hold, Function.update_idem]

end Vocabulary

end PionCore.Platform
