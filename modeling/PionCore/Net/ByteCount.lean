/-
# The bytes that a parser counts

A call of `parse` adds the bytes that it takes from its buffer to `m_bytes_total_read`; only a loop
that fails does not count them.
-/
import PionCore.Net.Fragmentation

namespace PionCore.Net

open PionCore.Lib

namespace Session

/-- The bytes that are taken from the buffer are added to the total, in `size_t`, if the call does
not fail; it never grows by more. -/
def Counts (s : Session) (x : Tribool × Session) : Prop :=
  ∃ k, x.2.parser.readBuf.length + k = s.parser.readBuf.length ∧
    x.2.parser.bytesTotalRead ≤ s.parser.bytesTotalRead + k ∧
    (x.1 ≠ .no → s.parser.bytesTotalRead < sizeMod →
      x.2.parser.bytesTotalRead = (s.parser.bytesTotalRead + k) % sizeMod)

lemma counts_self {s s' : Session} {rc : Tribool}
    (hbuf : s'.parser.readBuf = s.parser.readBuf)
    (htotal : s'.parser.bytesTotalRead = s.parser.bytesTotalRead) : s.Counts (rc, s') :=
  ⟨0, by rw [hbuf, Nat.add_zero], by rw [htotal, Nat.add_zero], fun _ h => by
    rw [htotal, Nat.add_zero, Nat.mod_eq_of_lt h]⟩

/-- What takes some bytes and counts them. -/
lemma counts_of_add {s s' : Session} {rc : Tribool} {k : ℕ}
    (hbuf : s'.parser.readBuf.length + k = s.parser.readBuf.length)
    (htotal : s'.parser.bytesTotalRead = (s.parser.bytesTotalRead + k) % sizeMod) :
    s.Counts (rc, s') :=
  ⟨k, hbuf, by rw [htotal]; exact Nat.mod_le _ _, fun _ _ => htotal⟩

/-- One call after another. -/
lemma Counts.trans {s t : Session} {rc : Tribool} {x : Tribool × Session} (h : s.Counts (rc, t))
    (hrc : rc ≠ .no) (h' : t.Counts x) : s.Counts x := by
  obtain ⟨k, hbuf, hle, heq⟩ := h
  obtain ⟨l, hbuf', hle', heq'⟩ := h'
  dsimp only at hbuf hle heq
  refine ⟨k + l, by omega, by omega, fun hx hlt => ?_⟩
  have ht := heq hrc hlt
  have htlt : t.parser.bytesTotalRead < sizeMod := by
    rw [ht]
    exact Nat.mod_lt _ (by decide)
  rw [heq' hx htlt, ht, Nat.mod_add_mod, Nat.add_assoc]

/-- The session behind may differ in other members. -/
lemma Counts.congr {s t t' : Session} {rc rc' : Tribool} (h : s.Counts (rc, t))
    (hbuf : t'.parser.readBuf = t.parser.readBuf)
    (htotal : t'.parser.bytesTotalRead = t.parser.bytesTotalRead) (hrc : rc = .no → rc' = .no) :
    s.Counts (rc', t') := by
  obtain ⟨k, h1, h2, h3⟩ := h
  refine ⟨k, by rw [hbuf, h1], by rw [htotal]; exact h2, fun hne hlt => ?_⟩
  rw [htotal]
  exact h3 (fun h => hne (hrc h)) hlt

lemma length_scan_rest {β σ ρ : Type*} (step : σ → β → Turn σ ρ) (s : σ) (w : List β) :
    (scan step s w).rest.length ≤ w.length := by
  induction w generalizing s with
  | nil => exact Nat.le_refl _
  | cons c w ih =>
    cases hc : step s c with
    | next s' =>
      rw [scan_next hc]
      exact (ih s').trans (Nat.le_succ _)
    | stop b r s' =>
      cases b with
      | true =>
        rw [scan_stop hc]
        exact Nat.le_succ _
      | false => rw [scan_halt hc]

lemma counts_afterLoop {s : Session} {p : HTTPParser} {m : HTTPMessage} {rest : Bytes}
    {content : Bool} {r : Option LoopEnd} (hrest : rest.length ≤ s.parser.readBuf.length)
    (hp : p.bytesTotalRead = s.parser.bytesTotalRead) :
    s.Counts (s.afterLoop p m rest content r) := by
  have hfailed : ∀ ec, s.Counts (.no, ⟨{ p with readBuf := rest, bytesLastRead := 0 }, m, ec⟩) :=
    fun ec => ⟨s.parser.readBuf.length - rest.length, Nat.add_sub_cancel' hrest,
      hp ▸ Nat.le_add_right _ _, fun h => absurd rfl h⟩
  rcases r with _ | _ | _ | ev
  · exact counts_of_add (Nat.add_sub_cancel' hrest) (by rw [← hp])
  · exact counts_of_add (Nat.add_sub_cancel' hrest) (by rw [← hp])
  · exact hfailed _
  · exact hfailed _

lemma finishHeaderParsing_total (s : Session) :
    s.finishHeaderParsing.2.parser.bytesTotalRead = s.parser.bytesTotalRead := by
  rw [finishHeaderParsing_eq]
  cases framing s.parser.isRequest s.headed <;> rfl

lemma counts_headersPass (s : Session) : s.Counts s.headersPass := by
  have hloop : s.Counts s.parseHeaders := counts_afterLoop (length_scan_rest _ _ _) rfl
  rw [headersPass]
  split_ifs with hyes
  · obtain ⟨k, h1, h2, h3⟩ := hloop
    refine ⟨k, ?_, ?_, fun _ hlt => ?_⟩
    · rw [finishHeaderParsing_readBuf]
      exact h1
    · rw [finishHeaderParsing_total]
      exact h2
    · rw [finishHeaderParsing_total]
      exact h3 (by rw [hyes]; simp) hlt
  · exact hloop

lemma counts_parseRound (s : Session) : s.Counts s.parseRound := by
  cases hst : s.parser.messageParseState with
  | parseStart =>
    rw [parseRound_eq_headersPass (Or.inl hst)]
    exact counts_headersPass (s.atHeaders (s.parser.header, s.msg))
  | parseHeaders =>
    rw [parseRound_eq_headersPass (Or.inr hst)]
    exact counts_headersPass (s.atHeaders (s.parser.header, s.msg))
  | parseChunks =>
    have hloop : s.Counts s.parseChunks := counts_afterLoop (length_scan_rest _ _ _) rfl
    rw [parseRound]
    simp only [hst]
    split_ifs with hyes
    · exact hloop.congr rfl rfl id
    · exact hloop
  | parseContent =>
    rw [parseRound]
    simp only [hst]
    rw [consumeContent]
    by_cases hnone : s.parser.bytesContentRemaining = 0
    · rw [if_pos hnone]
      exact counts_self rfl rfl
    · rw [if_neg hnone]
      refine counts_of_add (k := min s.parser.readBuf.length s.parser.bytesContentRemaining) ?_ rfl
      simp only [List.length_drop]
      omega
  | parseContentNoLength =>
    rw [parseRound]
    simp only [hst]
    exact counts_of_add (k := s.parser.readBuf.length) (by simp [consumeContentAsNextChunk]) rfl
  | parseEnd =>
    rw [parseRound]
    simp only [hst]
    exact counts_self rfl rfl

lemma counts_parseLoop (n total : ℕ) (s : Session) :
    s.Counts ((parseLoop n total s).1, (parseLoop n total s).2.2) := by
  induction n generalizing total s with
  | zero => exact counts_self rfl rfl
  | succ n ih =>
    have hround := counts_parseRound s
    rw [parseLoop]
    rcases hx : s.parseRound with ⟨rc, s'⟩
    rw [hx] at hround
    dsimp only
    by_cases hopen : rc = .indeterminate ∧ (! s'.parser.eof) = true
    · rw [if_pos hopen]
      exact hround.trans (by rw [hopen.1]; simp) (ih _ s')
    · rw [if_neg hopen]
      exact hround

/-- A call of `parse` counts the bytes that it takes. -/
lemma counts_parse (s : Session) : s.Counts s.parse := by
  have hloop := counts_parseLoop maxRounds 0 s.markData
  rw [parse]
  rcases hx : parseLoop maxRounds 0 s.markData with ⟨rc, total, t⟩
  rw [hx] at hloop
  have hmark : s.Counts (rc, t) := by
    obtain ⟨k, h1, h2, h3⟩ := hloop
    rw [parser_markData] at h1 h2 h3
    exact ⟨k, h1, h2, h3⟩
  cases rc <;> exact hmark.congr rfl rfl id

/-- What is read from one buffer. -/
lemma counts_read (s : Session) (w : Bytes) :
    ∃ k, (s.read w).rest.length + k = w.length ∧
      (s.read w).state.parser.bytesTotalRead ≤ s.parser.bytesTotalRead + k ∧
      ((s.read w).result ≠ some .no → s.parser.bytesTotalRead < sizeMod →
        (s.read w).state.parser.bytesTotalRead = (s.parser.bytesTotalRead + k) % sizeMod) := by
  obtain ⟨k, h1, h2, h3⟩ := counts_parse (s.setReadBuffer w)
  refine ⟨k, h1, h2, fun hne hlt => h3 (fun hno => hne ?_) hlt⟩
  rw [read, outcome, hno]
  rfl

end Session

end PionCore.Net
