/-
# The content of a message

What the functions that fill the content buffer make of it, as long as the size of the
buffer does not wrap around.
-/
import PionCore.Net.HTTPMessage

namespace PionCore.Net

open PionCore.Lib

namespace HTTPMessage

@[simp] lemma writeContent_nil (m : HTTPMessage) (i : ℕ) : m.writeContent i [] = m := by
  cases m
  simp [writeContent]

lemma writeContent_append (m : HTTPMessage) (i : ℕ) (v w : Bytes) :
    m.writeContent i (v ++ w) = (m.writeContent i v).writeContent (i + v.length) w := by
  have hfits : ∀ cells : List (Option Byte), decide (Memory.Fits cells i (v ++ w)) =
      (decide (Memory.Fits cells i v) && decide (Memory.Fits cells (i + v.length) w)) :=
    fun cells => by rw [Bool.eq_iff_iff]; simp [Memory.fits_append]
  cases hb : m.contentBuf <;>
    simp [writeContent, hb, Memory.write_append, hfits, Bool.or_assoc]

/-- A write that stays inside of the block leaves the flag alone. -/
lemma writeContent_wildWrite {m : HTTPMessage} {cells : List (Option Byte)} {i : ℕ} {w : Bytes}
    (hbuf : m.contentBuf = some cells) (hfits : Memory.Fits cells i w) :
    (m.writeContent i w).wildWrite = m.wildWrite := by
  simp [writeContent, hbuf, hfits]

lemma writeContent_contentBuf {m : HTTPMessage} {cells : List (Option Byte)} {i : ℕ} {w : Bytes}
    (hbuf : m.contentBuf = some cells) :
    (m.writeContent i w).contentBuf = some (Memory.write cells i w) := by
  simp [writeContent, hbuf]

/-- A buffer that does not wrap around is empty up to the zero behind the content. -/
lemma createContentBuffer_eq {m : HTTPMessage} (h : m.contentLength + 1 < sizeMod) :
    m.createContentBuffer =
      { m with contentBuf := some (List.replicate m.contentLength none ++ [some 0]) } := by
  have hlen : (m.contentLength + 1) % sizeMod = m.contentLength + 1 := Nat.mod_eq_of_lt h
  have hset : (List.replicate (m.contentLength + 1) (none : Option Byte)).set m.contentLength
      (some 0) = List.replicate m.contentLength none ++ [some 0] := by
    rw [List.replicate_succ', List.set_append_right _ _ (by simp)]
    simp
  simp only [createContentBuffer, writeContent, hlen, Option.map_some, Memory.write, hset,
    Option.getD_some]
  simp [Memory.Fits]

/-- The chunks fill the buffer that is made for them. -/
lemma concatenateChunks_eq {m : HTTPMessage} (h : m.chunkCache.length + 1 < sizeMod) :
    m.concatenateChunks =
      { m with
        contentLength := m.chunkCache.length
        contentBuf := some (m.chunkCache.map some ++ [some 0]) } := by
  have hnew : ({ m with contentLength := m.chunkCache.length } : HTTPMessage).contentLength + 1
      < sizeMod := h
  have hwrite : Memory.write (List.replicate m.chunkCache.length none ++ [some 0]) 0 m.chunkCache =
      m.chunkCache.map some ++ [some 0] := by
    have := Memory.write_eq [] (List.replicate m.chunkCache.length none ++ [some (0 : Byte)])
      (w := m.chunkCache) (by simp)
    simpa using this
  rw [concatenateChunks, createContentBuffer_eq hnew]
  simp only [writeContent, Option.map_some, hwrite, Option.getD_some]
  simp [Memory.Fits]

/-- The content is what stands in the first cells of the buffer. -/
lemma contentCells_eq {m : HTTPMessage} {v : Bytes} {cells : List (Option Byte)}
    (hlen : m.contentLength = v.length) (hbuf : m.contentBuf = some (v.map some ++ cells)) :
    m.contentCells = v.map some := by
  refine List.ext_getElem? fun i => ?_
  simp only [contentCells, hlen, hbuf, Option.getD_some, List.getElem?_map]
  by_cases hi : i < v.length
  · rw [List.getElem?_range hi, Option.map_some, List.getElem?_append_left (by simpa using hi),
      List.getElem?_map, List.getElem?_eq_getElem hi]
    rfl
  · rw [List.getElem?_eq_none (by simpa using hi), List.getElem?_eq_none (by omega)]
    rfl

end HTTPMessage

end PionCore.Net
