/-
# Reading a log to its end

A call of `LogCodec::read` that returns an event has taken a character, whatever the sets of the
codec are, so that the loop over the events of a stream ends (`read_progress`).
-/
import PionCore.Platform.TextCodecs

namespace PionCore.Platform.LogCodec

open PionCore.Lib

variable {φ δ χ θ : Type*} (conv : LogConversions φ δ χ θ)

/-- The loop that reads events until there is none, for some calls: the events, the last result, the
codec, and the rest of the stream.  `none`: the loop goes on. -/
def readWhile (stale : Bytes → Bytes) :
    ℕ → LogCodec → Bytes → Option (List (Event φ δ χ θ) × ReadResult φ δ χ θ × LogCodec × Bytes)
  | 0, _, _ => none
  | calls + 1, c, s =>
    match read conv stale c s with
    | (c, s, .event e) => (readWhile stale calls c s).map fun r => (e :: r.1, r.2)
    | (c, s, .eof) => some ([], .eof, c, s)
    | (c, s, .threw) => some ([], .threw, c, s)

variable {conv} {stale : Bytes → Bytes} {c : LogCodec} {s : Bytes}

/-- The loop over the names of a directive ends. -/
lemma elfNames_calls {eventSplit fmt : Bytes} {m n : ℕ} (hm : fmt.length < m)
    (hn : fmt.length < n) : elfNames eventSplit m fmt = elfNames eventSplit n fmt := by
  induction m generalizing n fmt with
  | zero => cases hm
  | succ m ih =>
    cases n with
    | zero => cases hn
    | succ n =>
      rw [elfNames, elfNames]
      dsimp only
      split_ifs
      · rfl
      · split
        · rfl
        · rename_i b rest hrest
          have hlength : rest.length < fmt.length := by
            have hle : (b :: rest).length ≤ fmt.length :=
              hrest ▸ ((List.dropWhile_suffix _).trans (List.dropWhile_suffix _)).length_le
            exact hle
          split_ifs
          · rfl
          · rw [ih (Nat.lt_of_lt_of_le hlength (Nat.le_of_lt_succ hm))
              (Nat.lt_of_lt_of_le hlength (Nat.le_of_lt_succ hn))]

/-- The loop ends, with no more events than there are characters. -/
lemma exists_readWhile {calls : ℕ} (hcalls : s.length < calls) :
    ∃ r, readWhile conv stale calls c s = some r ∧ r.1.length ≤ s.length ∧
      r.2.1.terms = none ∧ r.2.2.2 <:+ s := by
  induction calls generalizing c s with
  | zero => cases hcalls
  | succ calls ih =>
    have hsuffix := read_suffix conv stale c s
    rw [readWhile]
    rcases hread : read conv stale c s with ⟨c', rest, _ | _ | _⟩
    · have hlength := read_length conv hread
      obtain ⟨r, hr, hevents, hlast, hrest⟩ := ih (c := c') (s := rest) (by omega)
      rw [hread] at hsuffix
      refine ⟨_, congrArg (Option.map _) hr, ?_, hlast, hrest.trans hsuffix⟩
      rw [List.length_cons]
      omega
    · rw [hread] at hsuffix
      exact ⟨_, rfl, Nat.zero_le _, rfl, hsuffix⟩
    · rw [hread] at hsuffix
      exact ⟨_, rfl, Nat.zero_le _, rfl, hsuffix⟩

variable (conv)

/-- A call of `read` takes a part of the front of the stream, and one character at least if it
returns an event; its loop over the names of a directive ends; and reading events until there is
none ends in front of each rest of the stream. -/
theorem read_progress (stale : Bytes → Bytes) (c : LogCodec) (s : Bytes) :
    ((read conv stale c s).2.1 <:+ s ∧ ∀ e, (read conv stale c s).2.2 = .event e →
      (read conv stale c s).2.1.length < s.length) ∧
    (∀ fmt fuel, fmt.length < fuel →
      elfNames c.eventSplit fuel fmt = elfNames c.eventSplit (fmt.length + 1) fmt) ∧
    ∃ r, readWhile conv stale (s.length + 1) c s = some r ∧ r.1.length ≤ s.length ∧
      r.2.1.terms = none ∧ r.2.2.2 <:+ s := by
  refine ⟨⟨read_suffix conv stale c s, fun e he => ?_⟩, fun fmt fuel hfuel => ?_, ?_⟩
  · exact read_length (e := e) conv (Prod.ext rfl (Prod.ext rfl he))
  · exact elfNames_calls hfuel (Nat.lt_succ_self _)
  · exact exists_readWhile (Nat.lt_succ_self _)

end PionCore.Platform.LogCodec
