/-
# Sequences of calls

The calls that a user of a parser makes, in any order, and what holds over all of them: the
configuration of the parser is never changed.
-/
import PionCore.Net.ByteMachine

namespace PionCore.Net

open PionCore.Lib

/-- A call of the parser. -/
inductive Call where
  | setReadBuffer (w : Bytes)
  | parse
  | parseMissingData (len : ℕ)
  | checkPrematureEOF

namespace Session

/-- The result of a call, and the session behind it.  A new buffer has no result, and the
end of the input is either premature or not. -/
def call (s : Session) : Call → Tribool × Session
  | .setReadBuffer w => (.indeterminate, s.setReadBuffer w)
  | .parse => s.parse
  | .parseMissingData len => s.parseMissingData len
  | .checkPrematureEOF => (if s.checkPrematureEOF.1 then .yes else .no, s.checkPrematureEOF.2)

/-- The session behind a sequence of calls. -/
def after (s : Session) (calls : List Call) : Session :=
  calls.foldl (fun s c => (s.call c).2) s

@[simp] lemma after_nil (s : Session) : s.after [] = s := rfl

@[simp] lemma after_cons (s : Session) (c : Call) (calls : List Call) :
    s.after (c :: calls) = (s.call c).2.after calls := rfl

/-- What every call keeps holds behind every sequence of calls. -/
lemma after_invariant {P : Session → Prop} (h : ∀ s c, P s → P (s.call c).2) {s : Session}
    (hs : P s) (calls : List Call) : P (s.after calls) := by
  induction calls generalizing s with
  | nil => exact hs
  | cons c calls ih => exact ih (h s c hs)

/-! ### The configuration -/

/-- The members of a parser that say how it parses. -/
def config (s : Session) : Bool × ℕ × Bool × Bool :=
  (s.parser.isRequest, s.parser.maxContentLength, s.parser.parseHeadersOnly,
    s.parser.saveRawHeaders)

lemma config_afterLoop (s : Session) (p : HTTPParser) (m m' : HTTPMessage) (rest : Bytes)
    (content : Bool) (r : Option LoopEnd) :
    (s.afterLoop p m rest content r).2.config = (Session.mk p m' s.ec).config := by
  rcases r with _ | _ | _ | _ <;> rfl

lemma config_finishHeaderParsing (s : Session) : s.finishHeaderParsing.2.config = s.config := by
  rw [finishHeaderParsing_eq]
  cases framing s.parser.isRequest s.headed <;> rfl

lemma config_consumeContent (s : Session) : s.consumeContent.2.config = s.config := by
  rw [consumeContent]
  dsimp only
  split <;> rfl

lemma config_conclude (rc : Tribool) (s : Session) : (conclude rc s).2.config = s.config := by
  cases rc <;> rfl

lemma config_parseRound (s : Session) : s.parseRound.2.config = s.config := by
  have hheaders : ∀ s : Session, s.parseHeaders.2.config = s.config := fun s =>
    config_afterLoop s _ _ s.msg _ _ _
  have hchunks : ∀ s : Session, s.parseChunks.2.config = s.config := fun s =>
    config_afterLoop s _ _ s.msg _ _ _
  rw [parseRound]
  split
  · dsimp only
    split
    · rw [config_finishHeaderParsing, hheaders]
      rfl
    · exact hheaders _
  · dsimp only
    split
    · rw [config_finishHeaderParsing, hheaders]
      rfl
    · exact hheaders _
  · dsimp only
    split
    · exact hchunks s
    · exact hchunks s
  · exact config_consumeContent s
  · rfl
  · rfl

lemma config_parseLoop (n total : ℕ) (s : Session) :
    (parseLoop n total s).2.2.config = s.config := by
  induction n generalizing total s with
  | zero => rfl
  | succ n ih =>
    have hround := config_parseRound s
    simp only [parseLoop]
    by_cases h : s.parseRound.1 = .indeterminate ∧ (! s.parseRound.2.parser.eof) = true
    · rw [if_pos h, ih, hround]
    · rw [if_neg h, hround]

lemma config_markData (s : Session) : s.markData.config = s.config := by
  rw [markData]
  split_ifs <;> rfl

lemma config_missingRound (s : Session) (len : ℕ) : (s.missingRound len).2.config = s.config := by
  rw [missingRound]
  dsimp only
  split
  · rfl
  · rfl
  · split_ifs <;> rfl
  · split_ifs <;> rfl
  · rfl
  · rfl

/-- No call changes the configuration. -/
lemma config_call (s : Session) (c : Call) : (s.call c).2.config = s.config := by
  cases c with
  | setReadBuffer w => rfl
  | parse =>
    change (conclude _ (parseLoop maxRounds 0 s.markData).2.2).2.config = _
    rw [config_conclude, config_parseLoop, config_markData]
  | parseMissingData len =>
    change (conclude _ (missingRound _ len).2).2.config = _
    rw [config_conclude, config_missingRound]
    rfl
  | checkPrematureEOF =>
    simp only [call, checkPrematureEOF]
    split_ifs <;> rfl

lemma config_after (s : Session) (calls : List Call) : (s.after calls).config = s.config :=
  after_invariant (P := fun t => t.config = s.config)
    (fun t c ht => (config_call t c).trans ht) rfl calls

end Session

end PionCore.Net
