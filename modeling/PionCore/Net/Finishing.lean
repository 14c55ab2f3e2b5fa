/-
# Calls behind the end of a message

A parser that has finished its message can be called again: readers do so at the end of a
connection.  `parse` and `finish` take nothing and leave the message as it is, unless it is a
request with a form whose parameters are added to those of the query once more; the check for a
premature end of the input calls a finished message premature.
-/
import PionCore.Net.GapLaw
import PionCore.Net.ParserCalls

namespace PionCore.Net

open PionCore.Lib

/-! ### Forms that are parsed again -/

/-- The parser with entries in front of those that it has stored. -/
def QueryParse.behind (d : StringDictionary) (q : QueryParse) : QueryParse :=
  { q with dict := d ++ q.dict }

lemma parseURLEncodedChar_behind (d : StringDictionary) (q : QueryParse) (c : Byte) :
    parseURLEncodedChar (q.behind d) c = (parseURLEncodedChar q c).map (QueryParse.behind d) := by
  obtain ⟨_ | _, name, value, dict⟩ := q
  all_goals
    simp only [parseURLEncodedChar, QueryParse.behind, Bool.not_false, Bool.not_true, if_true,
      Bool.false_eq_true, if_false]
    split_ifs <;>
      simp_all [Turn.map, QueryParse.behind, StringDictionary.insert, Multimap.insert]

/-- The pairs that are found are added behind those that are there. -/
lemma parseURLEncoded_append (d : StringDictionary) (s : Bytes) :
    (parseURLEncoded d s).2 = d ++ (parseURLEncoded [] s).2 := by
  have hscan := scan_map (parseURLEncodedChar_behind d) { dict := [] } s
  have hstart : ({ dict := [] } : QueryParse).behind d = { dict := d } := by
    simp [QueryParse.behind]
  rw [hstart] at hscan
  rw [parseURLEncoded, parseURLEncoded, hscan]
  rcases scan parseURLEncodedChar { dict := [] } s with ⟨_ | _, rest, q⟩
  · by_cases hname : q.name = []
    · simp [Scanned.map, QueryParse.behind, hname]
    · simp [Scanned.map, QueryParse.behind, hname, StringDictionary.insert, Multimap.insert]
  · rfl

/-- The message is a request with a form in which there is a parameter. -/
def PostsForm (isRequest : Bool) (m : HTTPMessage) : Prop :=
  isRequest = true ∧ m.isRequest = true ∧
    contentTypeUrlencoded.isPrefixOf (m.getHeader headerContentType) = true ∧
    (parseURLEncoded [] m.getContent).2 ≠ []

instance (isRequest : Bool) (m : HTTPMessage) : Decidable (PostsForm isRequest m) :=
  inferInstanceAs (Decidable (_ ∧ _ ∧ _ ∧ _))

lemma parsePostContent_eq_self {isRequest : Bool} {m : HTTPMessage}
    (h : ¬ PostsForm isRequest m) : parsePostContent isRequest m = m := by
  rw [parsePostContent]
  by_cases hform : isRequest = true ∧
      contentTypeUrlencoded.isPrefixOf (m.getHeader headerContentType) = true
  · rw [if_pos hform]
    obtain ⟨kind, line, valid, ch, sup, ds, ma, mi, len, buf, cache, hs, cs, st, hm, hd, ww⟩ := m
    cases kind with
    | response r => rfl
    | request r =>
      have hpairs : (parseURLEncoded [] (HTTPMessage.mk (.request r) line valid ch sup ds ma mi
          len buf cache hs cs st hm hd ww).getContent).2 = [] := by
        by_contra hne
        exact h ⟨hform.1, rfl, hform.2, hne⟩
      rw [parseURLEncoded_append, hpairs, List.append_nil]
      rfl
  · rw [if_neg hform]

/-- The message without the parameters of its query. -/
def HTTPMessage.withoutParams (m : HTTPMessage) : HTTPMessage := m.setQueryParams []

lemma withoutParams_parsePostContent (isRequest : Bool) (m : HTTPMessage) :
    (parsePostContent isRequest m).withoutParams = m.withoutParams := by
  rw [parsePostContent]
  split_ifs
  · obtain ⟨kind, line, valid, ch, sup, ds, ma, mi, len, buf, cache, hs, cs, st, hm, hd, ww⟩ := m
    cases kind <;> rfl
  · rfl

namespace Session

/-! ### Calls -/

/-- A call on a parser that has finished its message. -/
inductive FurtherCall where
  | parse (w : Bytes)
  | checkPrematureEOF
  | finish

/-- What a call returns, if anything, and the session behind it. -/
def further (s : Session) : FurtherCall → Option Tribool × Session
  | .parse w => (some (s.setReadBuffer w).parse.1, (s.setReadBuffer w).parse.2)
  | .checkPrematureEOF =>
      (some (if s.checkPrematureEOF.1 then .yes else .no), s.checkPrematureEOF.2)
  | .finish => (none, { s with msg := Net.finish s.parser s.msg })

/-- The session behind a sequence of calls. -/
def furtherAll (s : Session) (cs : List FurtherCall) : Session :=
  cs.foldl (fun t c => (t.further c).2) s

/-- The bytes that a call finds in the buffer. -/
def found (s : Session) : FurtherCall → Bytes
  | .parse w => w
  | .checkPrematureEOF | .finish => s.parser.readBuf

/-- What a call is to return where the message is finished. -/
def finishedStatus : FurtherCall → Option Tribool
  | .parse _ => some .yes
  | .checkPrematureEOF => some .no
  | .finish => none

/-- What it returns there: only content without a length ends with the input. -/
def statusBehindEnd : FurtherCall → Option Tribool
  | .parse _ => some .yes
  | .checkPrematureEOF => some .yes
  | .finish => none

/-- A parser behind the end of its message. -/
structure Ended (s : Session) : Prop where
  state : s.parser.messageParseState = .parseEnd
  valid : s.msg.isValid = true
  status : s.msg.status = (computeMsgStatus s.msg true).status
  noted : s.msg.hasMissingPackets = true → s.msg.hasDataAfterMissing = true

/-- The head of the message does not matter. -/
lemma Ended.congr {s t : Session} (hs : s.Ended) (hstate : t.parser.messageParseState = .parseEnd)
    (h : t.msg.withoutHead = s.msg.withoutHead) : t.Ended := by
  obtain ⟨hm, hd⟩ := Prod.mk.inj (HTTPMessage.gaps_eq h)
  have hvalid := congrArg HTTPMessage.isValid h
  have hstatus := congrArg HTTPMessage.status h
  refine ⟨hstate, hvalid.trans hs.valid, hstatus.trans (hs.status.trans ?_), ?_⟩
  · simp only [computeMsgStatus]
    rw [hm, hd]
  · rw [hm, hd]
    exact hs.noted

lemma finish_ended {s : Session} (hs : s.Ended) :
    Net.finish s.parser s.msg = parsePostContent s.parser.isRequest s.msg := by
  have hvalid : { s.msg with isValid := true } = s.msg :=
    (congrArg (fun b => ({ s.msg with isValid := b } : HTTPMessage)) hs.valid).symm
  have hstatus : computeMsgStatus s.msg true = s.msg :=
    (congrArg (fun st => ({ s.msg with status := st } : HTTPMessage)) hs.status).symm
  rw [Net.finish, hs.state]
  dsimp only
  rw [hvalid, hstatus]

/-- `parse` takes nothing behind the end, and finishes the message once more. -/
lemma parse_ended {s : Session} (hs : s.Ended) :
    s.parse = (.yes, { s with
      parser := { s.parser with bytesLastRead := 0 }
      msg := parsePostContent s.parser.isRequest s.msg }) := by
  have hround : s.parseRound = (.yes, s) := by
    rw [parseRound]
    simp only [hs.state]
  have hloop : parseLoop maxRounds 0 s = (.yes, 0, s) := by
    rw [show maxRounds = 1 + 1 from rfl, parseLoop, hround]
    dsimp only
    rw [if_neg (by simp), if_pos hs.state]
  have hparser : { s.parser with messageParseState := .parseEnd } = s.parser :=
    (congrArg (fun st => ({ s.parser with messageParseState := st } : HTTPParser)) hs.state).symm
  rw [parse, markData_eq_self.2 hs.noted, hloop]
  dsimp only [conclude]
  rw [hparser, finish_ended hs, hs.state]

/-- A call behind the end takes nothing and changes no more than the parameters of a form. -/
lemma further_ended {s : Session} (hs : s.Ended) (c : FurtherCall) :
    (s.further c).1 = statusBehindEnd c ∧ (s.further c).2.parser.readBuf = s.found c ∧
      (s.further c).2.parser.isRequest = s.parser.isRequest ∧
      (s.further c).2.parser.messageParseState = .parseEnd ∧
      ((s.further c).2.msg = s.msg ∨
        (s.further c).2.msg = parsePostContent s.parser.isRequest s.msg) := by
  cases c with
  | parse w =>
    have hw : (s.setReadBuffer w).Ended := ⟨hs.state, hs.valid, hs.status, hs.noted⟩
    rw [further, parse_ended hw]
    exact ⟨rfl, rfl, rfl, hs.state, .inr rfl⟩
  | checkPrematureEOF =>
    have hcheck : s.checkPrematureEOF = (true, s) := by
      rw [checkPrematureEOF, if_pos (by rw [hs.state]; simp)]
    rw [further, hcheck]
    exact ⟨rfl, rfl, rfl, hs.state, .inl rfl⟩
  | finish => exact ⟨rfl, rfl, rfl, hs.state, .inr (finish_ended hs)⟩

/-- The session behind calls, beside the one in which the message was finished. -/
structure Behind (s t : Session) : Prop where
  ended : t.Ended
  isRequest : t.parser.isRequest = s.parser.isRequest
  same : t.msg.withoutParams = s.msg.withoutParams
  formless : ¬ PostsForm s.parser.isRequest s.msg → t.msg = s.msg

lemma behind_further {s t : Session} (h : s.Behind t) (c : FurtherCall) :
    s.Behind (t.further c).2 := by
  obtain ⟨-, -, hrequest, hstate, hmsg⟩ := further_ended h.ended c
  rcases hmsg with hmsg | hmsg
  · refine ⟨h.ended.congr hstate (congrArg _ hmsg), hrequest.trans h.isRequest, ?_, fun hform => ?_⟩
    · rw [hmsg, h.same]
    · rw [hmsg, h.formless hform]
  · refine ⟨h.ended.congr hstate ?_, hrequest.trans h.isRequest, ?_, fun hform => ?_⟩
    · rw [hmsg, HTTPMessage.withoutHead_parsePostContent]
    · rw [hmsg, withoutParams_parsePostContent, h.same]
    · rw [hmsg, h.formless hform, h.isRequest, parsePostContent_eq_self hform]

lemma behind_furtherAll {s t : Session} (h : s.Behind t) (cs : List FurtherCall) :
    s.Behind (t.furtherAll cs) := by
  induction cs generalizing t with
  | nil => exact h
  | cons c cs ih => exact ih (behind_further h c)

/-! ### Where `parse` returns true -/

lemma afterLoop_msg (s : Session) (p : HTTPParser) (m : HTTPMessage) (rest : Bytes)
    (content : Bool) (r : Option LoopEnd) : (s.afterLoop p m rest content r).2.msg = m := by
  rcases r with _ | _ | _ | ev <;> rfl

lemma gaps_headersPass (s : Session) : s.headersPass.2.msg.gaps = s.msg.gaps := by
  have hloop : s.parseHeaders.2.msg.gaps = s.msg.gaps := by
    rw [parseHeaders, afterLoop_msg]
    exact HTTPMessage.gaps_eq (withoutHead_scan_parseHeaders _ _ _ _)
  rw [headersPass]
  split_ifs
  · rw [finishHeaderParsing_gaps, hloop]
  · exact hloop

lemma gaps_parseRound (s : Session) : s.parseRound.2.msg.gaps = s.msg.gaps := by
  cases hst : s.parser.messageParseState with
  | parseStart =>
    rw [parseRound_eq_headersPass (Or.inl hst)]
    exact gaps_headersPass _
  | parseHeaders =>
    rw [parseRound_eq_headersPass (Or.inr hst)]
    exact gaps_headersPass _
  | parseChunks =>
    have hloop : s.parseChunks.2.msg.gaps = s.msg.gaps := by
      rw [parseChunks, afterLoop_msg]
      rfl
    rw [parseRound]
    simp only [hst]
    split_ifs
    · exact hloop
    · exact hloop
  | parseContent =>
    rw [parseRound]
    simp only [hst]
    rw [consumeContent]
    split_ifs <;> rfl
  | parseContentNoLength =>
    rw [parseRound]
    simp only [hst]
    rfl
  | parseEnd =>
    rw [parseRound]
    simp only [hst]

lemma gaps_parseLoop (n total : ℕ) (s : Session) :
    (parseLoop n total s).2.2.msg.gaps = s.msg.gaps := by
  induction n generalizing total s with
  | zero => rfl
  | succ n ih =>
    rw [parseLoop]
    dsimp only
    split_ifs
    all_goals first
      | exact (ih _ _).trans (gaps_parseRound s)
      | exact gaps_parseRound s

/-- Where `parse` has returned true, the parser is at the end of a message. -/
lemma ended_parse {s : Session} (h : s.parse.1 = .yes) : s.parse.2.Ended := by
  have hgaps := gaps_parseLoop maxRounds 0 s.markData
  rw [parse] at h ⊢
  generalize parseLoop maxRounds 0 s.markData = r at h hgaps ⊢
  obtain ⟨rc, total, t⟩ := r
  cases rc with
  | no | indeterminate => exact absurd h (by simp [conclude])
  | yes =>
    -- the parameters of a form are all that changes behind the new status
    have hsame := t.conclude_yes_withoutHead
    have hvalid := congrArg HTTPMessage.isValid hsame
    have hstatus := congrArg HTTPMessage.status hsame
    obtain ⟨hm, hd⟩ := Prod.mk.inj (HTTPMessage.gaps_eq hsame)
    refine ⟨rfl, hvalid, hstatus.trans ?_, fun hmissing => ?_⟩
    · simp only [computeMsgStatus]
      rw [hm, hd]
      rfl
    · have hmark := markData_eq_self.1 s.markData_markData
      obtain ⟨hm', hd'⟩ := Prod.mk.inj hgaps
      exact hd.trans (hd'.trans (hmark (hm'.symm.trans (hm.symm.trans hmissing))))

/-- Once `parse` has returned true, any further calls take nothing and leave the message as it is;
only the parameters of a form may be added to the others again. -/
theorem further_finished {s : Session} (h : s.parse.1 = .yes) (cs : List FurtherCall)
    (c : FurtherCall) :
    let e := s.parse.2
    let t := e.furtherAll cs
    (t.further c).1 = statusBehindEnd c ∧ (t.further c).2.parser.readBuf = t.found c ∧
      (t.further c).2.msg.withoutParams = e.msg.withoutParams ∧
      (¬ PostsForm e.parser.isRequest e.msg → (t.further c).2.msg = e.msg) := by
  intro e t
  have hstart : e.Behind e := ⟨ended_parse h, rfl, rfl, fun _ => rfl⟩
  have hbehind : e.Behind t := behind_furtherAll hstart cs
  have hcall := further_ended hbehind.ended c
  have hnext := behind_further hbehind c
  exact ⟨hcall.1, hcall.2.1, hnext.same, hnext.formless⟩

/-- A request with a form of one parameter, in the buffer of a new parser. -/
def formSession : Session :=
  (newSession true 100 false false (.newRequest []) .success).setReadBuffer
    (ascii "POST / HTTP/1.1\r\nContent-Type: application/x-www-form-urlencoded\r\n" ++
      ascii "Content-Length: 3\r\n\r\na=b")

/-- Behind the form, the next request and the end of the connection take nothing. -/
theorem further_finished_form :
    let e := formSession.parse.2
    let t := e.furtherAll [.parse (ascii "GET / HTTP/1.1\r\n\r\n"), .finish]
    (t.further .checkPrematureEOF).1 = statusBehindEnd .checkPrematureEOF ∧
      (t.further .checkPrematureEOF).2.parser.readBuf = t.found .checkPrematureEOF ∧
      (t.further .checkPrematureEOF).2.msg.withoutParams = e.msg.withoutParams ∧
      (¬ PostsForm e.parser.isRequest e.msg →
        (t.further .checkPrematureEOF).2.msg = e.msg) :=
  further_finished (s := formSession) (by decide +kernel) _ _

/-- A finished message is premature for `checkPrematureEOF`, and a form is parsed again. -/
theorem not_further_finished :
    (¬ ∀ s : Session, s.parse.1 = .yes →
      (s.parse.2.further .checkPrematureEOF).1 = finishedStatus .checkPrematureEOF) ∧
    ¬ ∀ s : Session, s.parse.1 = .yes → ∀ w,
      (s.parse.2.further (.parse w)).2.msg = s.parse.2.msg := by
  have hyes : formSession.parse.1 = .yes := by decide +kernel
  constructor
  · intro h
    have hstatus := (further_ended (ended_parse hyes) .checkPrematureEOF).1.symm.trans
      (h formSession hyes)
    cases hstatus
  · intro h
    have hmsg := congrArg (fun m : HTTPMessage => m.getQueryParams.length) (h formSession hyes [])
    revert hmsg
    decide +kernel

end Session

end PionCore.Net
