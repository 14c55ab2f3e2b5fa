/-
# Line ends

The header machine tolerates lines that end with CR LF, with CR or with LF.  What it reads from
the lines of a header is computed by `readLines` from the lines alone; where all of them end
alike, and the empty line too, the machine reads just that (`scan_header`), and the first byte
behind the empty line is left.
-/
import PionCore.Net.HeaderText
import PionCore.Net.ParserProgress

namespace PionCore.Net

open PionCore.Lib

/-! ### Lines -/

/-- The line ends that are tolerated. -/
inductive LineEnd where
  | crlf | cr | lf
deriving DecidableEq

namespace LineEnd

def bytes : LineEnd → Bytes
  | crlf => [13, 10]
  | cr => [13]
  | lf => [10]

/-- The state of the header machine behind a line that ends so. -/
def stateBehind : LineEnd → HeadersParseState
  | crlf => .parseHeaderStart
  | cr => .parseExpectingNewline
  | lf => .parseExpectingCr

/-- The lines of a header with their ends, and the empty line. -/
def render (e : LineEnd) (lines : List Bytes) : Bytes :=
  lines.flatMap (· ++ e.bytes) ++ e.bytes

lemma render_cons (e : LineEnd) (l : Bytes) (lines : List Bytes) (w : Bytes) :
    e.render (l :: lines) ++ w = l ++ (e.bytes ++ (e.render lines ++ w)) := by
  simp [render, List.append_assoc]

end LineEnd

/-- A byte that belongs to no line end. -/
def InLine (c : Byte) : Prop := c ≠ 13 ∧ c ≠ 10

/-- A text is checked byte by byte. -/
lemma inLine_of_all {l : Bytes} (h : (l.all fun c => c ≠ 13 ∧ c ≠ 10) = true) :
    ∀ c ∈ l, InLine c := by
  intro c hc
  have hbyte := List.all_eq_true.1 h c hc
  rwa [decide_eq_true_eq] at hbyte

lemma inLine_of_text {l : Bytes} (hl : IsText l) : ∀ c ∈ l, InLine c :=
  fun c hc => ne_of_text (hl c hc)

lemma inLine_of_token {l : Bytes} (hl : IsToken l) : ∀ c ∈ l, InLine c := by
  intro c hc
  obtain ⟨-, h10, h13, -⟩ := ne_of_token (hl.2 c hc)
  exact ⟨h13, h10⟩

/-- A line is not empty, and ends with its last byte. -/
def IsLine (l : Bytes) : Prop := l ≠ [] ∧ ∀ c ∈ l, InLine c

/-- The states in which the first line of a header may end. -/
def HeadersParseState.endsFirstLine (isRequest : Bool) : HeadersParseState → Bool
  | .parseUriStem | .parseStatusCode | .parseStatusMessage => true
  | .parseHttpVersionMinor => isRequest
  | _ => false

/-- The states inside a line of a header that is not the first one. -/
def HeadersParseState.inHeaderLine : HeadersParseState → Bool
  | .parseHeaderWhitespace | .parseHeaderName | .parseSpaceBeforeHeaderValue
  | .parseHeaderValue => true
  | _ => false

/-- The states in which a line of a header starts. -/
def HeadersParseState.startsLine : HeadersParseState → Bool
  | .parseExpectingNewline | .parseExpectingCr | .parseHeaderStart => true
  | _ => false

lemma startsLine_eq_false {isRequest : Bool} {st : HeadersParseState}
    (h : st.endsFirstLine isRequest = true ∨ st.inHeaderLine = true) : st.startsLine = false := by
  cases st <;> first | rfl | simp [HeadersParseState.endsFirstLine,
    HeadersParseState.inHeaderLine] at h

/-! ### What the machine has read -/

/-- What the machine has read and the state it is in, except for the kind of the last line end. -/
def lineView (s : HeaderMachine × HTTPMessage) : HeaderMachine × HTTPMessage :=
  ({ s.1 with
    headersParseState :=
      if s.1.headersParseState.startsLine then .parseHeaderStart else s.1.headersParseState
    rawHeaders := [] }, s.2)

/-- What the machine has read. -/
def dataView (s : HeaderMachine × HTTPMessage) : HeaderMachine × HTTPMessage :=
  ({ s.1 with headersParseState := .parseHeaderStart, rawHeaders := [] }, s.2)

lemma dataView_lineView (s : HeaderMachine × HTTPMessage) : dataView (lineView s) = dataView s := rfl

lemma lineView_lineView (s : HeaderMachine × HTTPMessage) : lineView (lineView s) = lineView s := by
  simp only [lineView]
  split_ifs <;> rfl

lemma state_of_lineView {s s' : HeaderMachine × HTTPMessage} (h : lineView s = lineView s')
    (hs : s.1.headersParseState.startsLine = false) :
    s'.1.headersParseState = s.1.headersParseState := by
  have hst := congrArg (fun t => t.1.headersParseState) h
  simp only [lineView, hs, Bool.false_eq_true, if_false] at hst
  split_ifs at hst
  · rw [hst] at hs
    cases hs
  · exact hst.symm

lemma lineView_of_startsLine {s : HeaderMachine × HTTPMessage}
    (h : s.1.headersParseState.startsLine = true) : lineView s = dataView s := by
  rw [lineView, if_pos h, dataView]

section Machine

variable {isRequest saveRaw : Bool}

/-- Inside a line, the machine does not see what the line before ended with. -/
lemma parseHeadersChar_lineView (s : HeaderMachine × HTTPMessage) {c : Byte} (hc : InLine c) :
    (parseHeadersChar isRequest saveRaw s c).map lineView =
      (parseHeadersChar isRequest false (lineView s) c).map lineView := by
  obtain ⟨⟨st, code, message, method, resource, query, raw, name, value⟩, m⟩ := s
  obtain ⟨h13, h10⟩ := hc
  obtain ⟨raw', hraw⟩ := saveRawHeader_mk saveRaw st code message method resource query raw name
    value c
  cases st
  all_goals
    simp only [parseHeadersChar, hraw, saveRawHeader_false, parseHeadersSwitch,
      parseHeaderNameStart, parseHttpLetter, lineView, HeadersParseState.startsLine, h13, h10,
      if_true, if_false, Bool.false_eq_true, false_or]
    (try split_ifs) <;> rfl

/-- Two machines that have read the same read the same from a line. -/
lemma scan_lineView {s s' : HeaderMachine × HTTPMessage} (hs : lineView s = lineView s') {l : Bytes}
    (hl : ∀ c ∈ l, InLine c) :
    (scan (parseHeadersChar isRequest saveRaw) s l).map lineView =
      (scan (parseHeadersChar isRequest false) s' l).map lineView := by
  refine scan_view (fun t t' c hc ht => ?_) hs hl
  rw [parseHeadersChar_lineView t hc, ht, ← parseHeadersChar_lineView t' hc]

/-- In a line of a header, the machine goes on or fails. -/
lemma parseHeadersChar_inHeaderLine {s : HeaderMachine × HTTPMessage} {c : Byte} (hc : InLine c)
    (hs : s.1.headersParseState.startsLine = true ∨ s.1.headersParseState.inHeaderLine = true) :
    (∃ t, parseHeadersChar isRequest saveRaw s c = .next t ∧
        t.1.headersParseState.inHeaderLine = true) ∨
      ∃ ev t, parseHeadersChar isRequest saveRaw s c = .stop false (.failed ev) t := by
  obtain ⟨⟨st, code, message, method, resource, query, raw, name, value⟩, m⟩ := s
  obtain ⟨h13, h10⟩ := hc
  obtain ⟨raw', hraw⟩ := saveRawHeader_mk saveRaw st code message method resource query raw name
    value c
  cases st
  all_goals first
    | simp [HeadersParseState.startsLine, HeadersParseState.inHeaderLine] at hs; done
    | simp only [parseHeadersChar, hraw, parseHeadersSwitch, parseHeaderNameStart, h13, h10,
        if_false]
      split_ifs <;>
        first
        | exact .inl ⟨_, rfl, rfl⟩
        | exact .inr ⟨_, _, rfl⟩

lemma scan_inHeaderLine {s : HeaderMachine × HTTPMessage}
    (hs : s.1.headersParseState.startsLine = true ∨ s.1.headersParseState.inHeaderLine = true)
    {l : Bytes} (hl : ∀ c ∈ l, InLine c) :
    ((scan (parseHeadersChar isRequest saveRaw) s l).result = none →
      (l ≠ [] ∨ s.1.headersParseState.inHeaderLine = true) →
      (scan (parseHeadersChar isRequest saveRaw) s l).state.1.headersParseState.inHeaderLine
        = true) ∧
      ∀ r, (scan (parseHeadersChar isRequest saveRaw) s l).result = some r →
        ∃ ev, r = .failed ev := by
  induction l generalizing s with
  | nil => exact ⟨fun _ h => h.elim (fun h => absurd rfl h) id, fun r h => by cases h⟩
  | cons c l ih =>
    have hc := hl c List.mem_cons_self
    rcases @parseHeadersChar_inHeaderLine isRequest saveRaw s c hc hs with
      ⟨t, ht, hline⟩ | ⟨ev, t, ht⟩
    · have hrest := ih (.inr hline) fun d hd => hl d (List.mem_cons_of_mem c hd)
      rw [scan_next ht]
      exact ⟨fun hnone _ => hrest.1 hnone (.inr hline), hrest.2⟩
    · rw [scan_halt ht]
      exact ⟨fun h => (by cases h), fun r h => ⟨ev, (Option.some.inj h).symm⟩⟩

/-! ### Line ends -/

/-- The raw headers do not matter. -/
lemma parseHeadersChar_raw {s : HeaderMachine × HTTPMessage}
    (hs : s.1.headersParseState.startsLine = false) (c : Byte) :
    (parseHeadersChar isRequest false s c).map dataView =
      (parseHeadersChar isRequest false (lineView s) c).map dataView := by
  obtain ⟨⟨st, code, message, method, resource, query, raw, name, value⟩, m⟩ := s
  cases st
  all_goals first
    | cases hs; done
    | simp only [parseHeadersChar, parseHeadersSwitch, parseHttpLetter, saveRawHeader, lineView,
        HeadersParseState.startsLine, if_false, Bool.false_eq_true]
      (try split_ifs) <;> rfl

/-- The three line ends lead to the start of a line with the same in hand, or fail alike. -/
lemma scan_lineEnd {s : HeaderMachine × HTTPMessage}
    (hs : s.1.headersParseState.endsFirstLine isRequest = true ∨
      s.1.headersParseState.inHeaderLine = true) (e : LineEnd) (w : Bytes) :
    (∃ t t', parseHeadersChar isRequest false (lineView s) 13 = .next t' ∧
        scan (parseHeadersChar isRequest saveRaw) s (e.bytes ++ w) =
          scan (parseHeadersChar isRequest saveRaw) t w ∧
        t.1.headersParseState = e.stateBehind ∧ dataView t = dataView t') ∨
      ∃ ev b rest t t', parseHeadersChar isRequest false (lineView s) 13 = .stop b (.failed ev) t' ∧
        scan (parseHeadersChar isRequest saveRaw) s (e.bytes ++ w) =
          ⟨some (.failed ev), rest, t⟩ ∧ dataView t = dataView t' := by
  obtain ⟨⟨st, code, message, method, resource, query, raw, name, value⟩, m⟩ := s
  cases st
  case parseHttpVersionMinor =>
    have hr : isRequest = true := by simpa [HeadersParseState.endsFirstLine,
      HeadersParseState.inHeaderLine] using hs
    subst hr
    cases e <;> cases saveRaw <;> exact .inl ⟨_, _, rfl, rfl, rfl, rfl⟩
  case parseHeaderName =>
    cases e <;> cases saveRaw <;> exact .inr ⟨_, _, _, _, _, rfl, rfl, rfl⟩
  case parseUriStem | parseStatusCode | parseStatusMessage | parseHeaderWhitespace
      | parseSpaceBeforeHeaderValue | parseHeaderValue =>
    all_goals cases e <;> cases saveRaw <;> exact .inl ⟨_, _, rfl, rfl, rfl, rfl⟩
  all_goals simp [HeadersParseState.endsFirstLine, HeadersParseState.inHeaderLine] at hs

/-- The empty line ends the header, and nothing behind it is taken. -/
lemma scan_emptyLine {s : HeaderMachine × HTTPMessage} {e : LineEnd}
    (hs : s.1.headersParseState = e.stateBehind) (w : Bytes) :
    ∃ t, scan (parseHeadersChar isRequest saveRaw) s (e.bytes ++ w) = ⟨some .done, w, t⟩ ∧
      dataView t = dataView s := by
  obtain ⟨⟨st, code, message, method, resource, query, raw, name, value⟩, m⟩ := s
  subst hs
  cases e <;> cases saveRaw <;> exact ⟨_, rfl, rfl⟩

lemma startsLine_of_stateBehind {s : HeaderMachine × HTTPMessage} {e : LineEnd}
    (hs : s.1.headersParseState = e.stateBehind) : s.1.headersParseState.startsLine = true := by
  rw [hs]
  cases e <;> rfl

/-! ### Lines of a header -/

/-- What the machine makes of a line with its end: a line end of any kind does. -/
def readLine (isRequest : Bool) (d : HeaderMachine × HTTPMessage) (l : Bytes) :
    Scanned Byte (HeaderMachine × HTTPMessage) LoopEnd :=
  scan (parseHeadersChar isRequest false) d (l ++ [13])

/-- What the machine makes of the lines behind the first one, and of the empty line. -/
def readLines (isRequest : Bool) :
    HeaderMachine × HTTPMessage → List Bytes → LoopEnd × (HeaderMachine × HTTPMessage)
  | d, [] => (.done, d)
  | d, l :: ls =>
      match (readLine isRequest d l).result with
      | some r => (r, dataView (readLine isRequest d l).state)
      | none => readLines isRequest (dataView (readLine isRequest d l).state) ls

/-- A line is read as `readLine` says where it may end with its last byte. -/
lemma scan_line {s : HeaderMachine × HTTPMessage} {l : Bytes} (hl : ∀ c ∈ l, InLine c)
    (hend : (scan (parseHeadersChar isRequest saveRaw) s l).result = none →
      (scan (parseHeadersChar isRequest saveRaw) s l).state.1.headersParseState.endsFirstLine
          isRequest = true ∨
        (scan (parseHeadersChar isRequest saveRaw) s l).state.1.headersParseState.inHeaderLine
          = true)
    (hfail : ∀ r, (scan (parseHeadersChar isRequest saveRaw) s l).result = some r →
      ∃ ev, r = .failed ev) (e : LineEnd) (w : Bytes) :
    ((readLine isRequest (lineView s) l).result = none ∧
        ∃ t, scan (parseHeadersChar isRequest saveRaw) s (l ++ (e.bytes ++ w)) =
            scan (parseHeadersChar isRequest saveRaw) t w ∧
          t.1.headersParseState = e.stateBehind ∧
          dataView t = dataView (readLine isRequest (lineView s) l).state) ∨
      ∃ ev rest t, (readLine isRequest (lineView s) l).result = some (.failed ev) ∧
        scan (parseHeadersChar isRequest saveRaw) s (l ++ (e.bytes ++ w)) =
          ⟨some (.failed ev), rest, t⟩ ∧
        dataView t = dataView (readLine isRequest (lineView s) l).state := by
  have hview := @scan_lineView isRequest saveRaw s (lineView s) (lineView_lineView s).symm l hl
  rw [readLine, scan_append, scan_append]
  generalize scan (parseHeadersChar isRequest saveRaw) s l = x at hend hfail hview ⊢
  generalize scan (parseHeadersChar isRequest false) (lineView s) l = y at hview ⊢
  obtain ⟨rx, restx, tx⟩ := x
  obtain ⟨ry, resty, ty⟩ := y
  simp only [Scanned.map, Scanned.mk.injEq] at hview
  obtain ⟨rfl, rfl, hstate⟩ := hview
  cases rx with
  | some r =>
    obtain ⟨ev, rfl⟩ := hfail r rfl
    rw [Scanned.resume_some rfl, Scanned.resume_some rfl]
    exact .inr ⟨ev, _, tx, rfl, rfl, (congrArg dataView hstate : dataView (lineView tx) = _)⟩
  | none =>
    rw [Scanned.resume_none rfl, Scanned.resume_none rfl]
    have hin := hend rfl
    have hline := @scan_lineEnd isRequest saveRaw tx hin e w
    have hstart := startsLine_eq_false hin
    have hraw := @parseHeadersChar_raw isRequest ty
      (by rw [state_of_lineView hstate hstart, hstart]) 13
    rw [← hstate] at hraw
    rcases hline with ⟨t, t', ht', hscan, hbehind, hdata⟩ | ⟨ev, b, rest, t, t', ht', hscan, hdata⟩
    · rw [ht'] at hraw
      cases hy : parseHeadersChar isRequest false ty 13 with
      | stop b r u => simp [hy, Turn.map] at hraw
      | next u =>
        rw [hy, Turn.map, Turn.map, Turn.next.injEq] at hraw
        rw [scan_next hy]
        exact .inl ⟨rfl, t, hscan, hbehind, hdata.trans hraw.symm⟩
    · rw [ht'] at hraw
      cases hy : parseHeadersChar isRequest false ty 13 with
      | next u => simp [hy, Turn.map] at hraw
      | stop b' r u =>
        simp only [hy, Turn.map, Turn.stop.injEq] at hraw
        obtain ⟨rfl, rfl, hu⟩ := hraw
        refine .inr ⟨ev, rest, t, ?_, hscan, ?_⟩
        · cases b' <;> simp [scan, hy]
        · cases b' <;> simpa [scan, hy] using hdata.trans hu.symm

/-- A first line may be ended. -/
lemma readLine_firstLine {s : HeaderMachine × HTTPMessage} {l : Bytes} (hl : ∀ c ∈ l, InLine c)
    (hnone : (scan (parseHeadersChar isRequest saveRaw) s l).result = none)
    (hend : (scan (parseHeadersChar isRequest saveRaw) s l).state.1.headersParseState.endsFirstLine
      isRequest = true) : (readLine isRequest (lineView s) l).result = none := by
  have hview := @scan_lineView isRequest saveRaw s (lineView s) (lineView_lineView s).symm l hl
  rw [readLine, scan_append]
  generalize scan (parseHeadersChar isRequest saveRaw) s l = x at hnone hend hview
  generalize scan (parseHeadersChar isRequest false) (lineView s) l = y at hview ⊢
  simp only [Scanned.map, Scanned.mk.injEq] at hview
  obtain ⟨hresult, -, hstate⟩ := hview
  have hst := state_of_lineView hstate (startsLine_eq_false (.inl hend))
  rw [← hst] at hend
  rw [Scanned.resume_none (hresult.symm.trans hnone)]
  generalize y.state = t at hend ⊢
  obtain ⟨⟨st, code, message, method, resource, query, raw, name, value⟩, m⟩ := t
  cases st
  case parseHttpVersionMinor =>
    obtain rfl : isRequest = true := hend
    rfl
  all_goals first | rfl | cases hend

/-- The machine came to the result and the data that the lines give, and to the end of the header
if there was no error. -/
def ReadsAs (x : Scanned Byte (HeaderMachine × HTTPMessage) LoopEnd)
    (y : LoopEnd × (HeaderMachine × HTTPMessage)) (w : Bytes) : Prop :=
  x.result = some y.1 ∧ dataView x.state = y.2 ∧ (y.1 = .done → x.rest = w)

lemma readsAs_cons {s : HeaderMachine × HTTPMessage} {l : Bytes} (hl : ∀ c ∈ l, InLine c)
    (hend : (scan (parseHeadersChar isRequest saveRaw) s l).result = none →
      (scan (parseHeadersChar isRequest saveRaw) s l).state.1.headersParseState.endsFirstLine
          isRequest = true ∨
        (scan (parseHeadersChar isRequest saveRaw) s l).state.1.headersParseState.inHeaderLine
          = true)
    (hfail : ∀ r, (scan (parseHeadersChar isRequest saveRaw) s l).result = some r →
      ∃ ev, r = .failed ev) {e : LineEnd} {lines : List Bytes} {w : Bytes}
    (hrest : ∀ t, t.1.headersParseState = e.stateBehind →
      ReadsAs (scan (parseHeadersChar isRequest saveRaw) t (e.render lines ++ w))
        (readLines isRequest (dataView t) lines) w) :
    ReadsAs (scan (parseHeadersChar isRequest saveRaw) s (e.render (l :: lines) ++ w))
      (readLines isRequest (lineView s) (l :: lines)) w := by
  rw [LineEnd.render_cons, readLines]
  rcases scan_line hl hend hfail e (e.render lines ++ w) with
    ⟨hread, t, hscan, hbehind, hdata⟩ | ⟨ev, rest, t, hread, hscan, hdata⟩
  · rw [hread, hscan, ← hdata]
    exact hrest t hbehind
  · rw [hread, hscan]
    exact ⟨rfl, hdata, fun h => (by cases h)⟩

/-- Behind the first line, the machine reads what the lines give. -/
lemma scan_lines {s : HeaderMachine × HTTPMessage} {e : LineEnd}
    (hs : s.1.headersParseState = e.stateBehind) {lines : List Bytes}
    (hlines : ∀ l ∈ lines, IsLine l) (w : Bytes) :
    ReadsAs (scan (parseHeadersChar isRequest saveRaw) s (e.render lines ++ w))
      (readLines isRequest (dataView s) lines) w := by
  induction lines generalizing s with
  | nil =>
    obtain ⟨t, ht, hdata⟩ := @scan_emptyLine isRequest saveRaw s e hs w
    rw [show e.render [] ++ w = e.bytes ++ w from rfl, ht]
    exact ⟨rfl, hdata, fun _ => rfl⟩
  | cons l lines ih =>
    obtain ⟨hne, hl⟩ := hlines l List.mem_cons_self
    have hstart := startsLine_of_stateBehind hs
    have hline := @scan_inHeaderLine isRequest saveRaw s (.inl hstart) l hl
    rw [← lineView_of_startsLine hstart]
    exact readsAs_cons hl (fun hnone => .inr (hline.1 hnone (.inl hne))) hline.2
      fun t ht => ih ht fun l' hl' => hlines l' (List.mem_cons_of_mem l hl')

/-- The whole header is read as its lines give. -/
lemma scan_headerLines {s : HeaderMachine × HTTPMessage} {line : Bytes} (hl : ∀ c ∈ line, InLine c)
    (hnone : (scan (parseHeadersChar isRequest saveRaw) s line).result = none)
    (hend : (scan (parseHeadersChar isRequest saveRaw) s line).state.1.headersParseState.endsFirstLine
      isRequest = true) {lines : List Bytes} (hlines : ∀ l ∈ lines, IsLine l) (e : LineEnd)
    (w : Bytes) :
    ReadsAs (scan (parseHeadersChar isRequest saveRaw) s (e.render (line :: lines) ++ w))
      (readLines isRequest (lineView s) (line :: lines)) w :=
  readsAs_cons hl (fun _ => .inl hend) (fun r hr => by rw [hnone] at hr; cases hr)
    fun _ ht => scan_lines ht hlines w

/-! ### Lines that are read without an error -/

/-- A header as a client may write it: the value may be empty, and the blank before it missing. -/
def IsHeaderLine (l : Bytes) : Prop :=
  ∃ name value : Bytes, IsToken name ∧ name.length ≤ headerNameMax ∧ IsText value ∧
    value.length ≤ headerValueMax ∧
    (l = name ++ 58 :: 32 :: value ∨ l = name ++ [58] ∨
      l = name ++ 58 :: value ∧ ∃ c v, value = c :: v ∧ badTokenChar c = false)

lemma isLine_of_headerLine {l : Bytes} (hl : IsHeaderLine l) : IsLine l := by
  obtain ⟨name, value, hname, -, hvalue, -, hform⟩ := hl
  have hcolon : InLine 58 := by
    unfold InLine
    decide
  have hblank : InLine 32 := by
    unfold InLine
    decide
  have hname' := inLine_of_token hname
  have hvalue' := inLine_of_text hvalue
  rcases hform with rfl | rfl | ⟨rfl, -⟩
  · exact ⟨by simp, List.forall_mem_append.2 ⟨hname', List.forall_mem_cons.2
      ⟨hcolon, List.forall_mem_cons.2 ⟨hblank, hvalue'⟩⟩⟩⟩
  · exact ⟨by simp, List.forall_mem_append.2 ⟨hname', by simpa using hcolon⟩⟩
  · exact ⟨by simp, List.forall_mem_append.2 ⟨hname', List.forall_mem_cons.2 ⟨hcolon, hvalue'⟩⟩⟩

lemma readLine_headerLine {d : HeaderMachine × HTTPMessage}
    (hd : d.1.headersParseState = .parseHeaderStart) {l : Bytes} (hl : IsHeaderLine l) :
    (readLine isRequest d l).result = none := by
  obtain ⟨⟨st, code, message, method, resource, query, raw, name', value'⟩, m⟩ := d
  obtain rfl : st = .parseHeaderStart := hd
  obtain ⟨name, value, hname, hnameMax, hvalue, hvalueMax, hform⟩ := hl
  have hvalues : ∀ acc v : Bytes, IsText v → acc.length + v.length ≤ headerValueMax →
      (scan (parseHeadersChar isRequest false) (⟨.parseHeaderValue, code, message, method, resource,
        query, raw, name, acc⟩, m) (v ++ [13])).result = none := by
    intro acc v hv hmax
    rw [scan_collect (parseHeadersChar isRequest false)
      (fun acc => (⟨.parseHeaderValue, code, message, method, resource, query, raw, name, acc⟩, m))
      headerValueMax (fun acc d hd hlt => ?_) hv hmax]
    · rfl
    · obtain ⟨h1, h2⟩ := ne_of_text hd
      simp [parseHeadersChar, parseHeadersSwitch, saveRawHeader, hd, h1, h2, not_le.2 hlt]
  rw [readLine]
  obtain rfl | rfl | ⟨rfl, c, v, rfl, hc⟩ := hform
  · rw [List.append_assoc, scan_headerName hname hnameMax]
    exact hvalues [] value hvalue (by simpa using hvalueMax)
  · rw [List.append_assoc, scan_headerName hname hnameMax]
    rfl
  · have hfirst : parseHeadersChar isRequest false (⟨.parseSpaceBeforeHeaderValue, code, message,
        method, resource, query, raw, name, []⟩, m) c =
          .next (⟨.parseHeaderValue, code, message, method, resource, query, raw, name, [c]⟩, m) := by
      obtain ⟨-, h1, h2, h3, -⟩ := ne_of_token hc
      simp [parseHeadersChar, parseHeadersSwitch, saveRawHeader, h1, h2, h3, hc]
    rw [List.append_assoc, scan_headerName hname hnameMax]
    have hcolon : ∀ w : Bytes, scan (parseHeadersChar isRequest false)
        (⟨.parseHeaderName, code, message, method, resource, query, raw, name, value'⟩, m)
        (58 :: w) = scan (parseHeadersChar isRequest false)
        (⟨.parseSpaceBeforeHeaderValue, code, message, method, resource, query, raw, name, []⟩, m)
        w := fun _ => rfl
    rw [List.cons_append, hcolon, List.cons_append, scan_next hfirst]
    refine hvalues [c] v (fun d hd => hvalue d (List.mem_cons_of_mem c hd)) ?_
    rwa [List.length_cons, Nat.add_comm] at hvalueMax

lemma readLines_headerLines {d : HeaderMachine × HTTPMessage}
    (hd : d.1.headersParseState = .parseHeaderStart) {lines : List Bytes}
    (hlines : ∀ l ∈ lines, IsHeaderLine l) : (readLines isRequest d lines).1 = .done := by
  induction lines generalizing d with
  | nil => rfl
  | cons l lines ih =>
    rw [readLines, readLine_headerLine hd (hlines l List.mem_cons_self)]
    exact ih rfl fun l' hl' => hlines l' (List.mem_cons_of_mem l hl')

end Machine

namespace Session

/-! ### Headers -/

/-- The session takes a first line and stands where the line may end. -/
def TakesFirstLine (s : Session) (l : Bytes) : Prop :=
  let x := scan (parseHeadersChar s.parser.isRequest s.parser.saveRawHeaders)
    (s.parser.header, s.msg) l
  (∀ c ∈ l, InLine c) ∧ x.result = none ∧
    x.state.1.headersParseState.endsFirstLine s.parser.isRequest = true

/-- It does whatever the message, and wherever the rest of the parser stands. -/
lemma TakesFirstLine.congr {s t : Session} {l : Bytes} (h : s.TakesFirstLine l)
    (hheader : t.parser.header = s.parser.header) (hrequest : t.parser.isRequest = s.parser.isRequest)
    (hraw : t.parser.saveRawHeaders = s.parser.saveRawHeaders) : t.TakesFirstLine l := by
  obtain ⟨hl, hnone, hend⟩ := h
  have hsame : (scan (parseHeadersChar s.parser.isRequest s.parser.saveRawHeaders)
        (s.parser.header, t.msg) l).map Prod.fst =
      (scan (parseHeadersChar s.parser.isRequest s.parser.saveRawHeaders)
        (s.parser.header, s.msg) l).map Prod.fst :=
    (parseHeadersChar_respects_fst s.parser.isRequest s.parser.saveRawHeaders).scan (by rfl) l
  simp only [Scanned.map, Scanned.mk.injEq] at hsame
  obtain ⟨hresult, -, hmachine⟩ := hsame
  rw [TakesFirstLine, hheader, hrequest, hraw, hresult, hmachine]
  exact ⟨hl, hnone, hend⟩

/-- Whether the text of the header is saved does not matter. -/
lemma takesFirstLine_of_scan {s : Session} {l : Bytes} (hl : ∀ c ∈ l, InLine c)
    {t : HeaderMachine × HTTPMessage}
    (h : scan (parseHeadersChar s.parser.isRequest false) (s.parser.header, s.msg) l = ⟨none, [], t⟩)
    (hend : t.1.headersParseState.endsFirstLine s.parser.isRequest = true) :
    s.TakesFirstLine l := by
  have hview := @scan_lineView s.parser.isRequest s.parser.saveRawHeaders
    (s.parser.header, s.msg) (s.parser.header, s.msg) rfl l hl
  rw [h] at hview
  simp only [Scanned.map, Scanned.mk.injEq] at hview
  obtain ⟨hresult, -, hstate⟩ := hview
  refine ⟨hl, hresult, ?_⟩
  rwa [state_of_lineView hstate.symm (startsLine_eq_false (.inl hend))]

lemma inLine_of_numeral (n : ℕ) : ∀ c ∈ numeral 10 n, InLine c := by
  intro c hc
  obtain ⟨-, -, h13, h10⟩ := ne_of_digit (isDigit_of_mem_numeral hc)
  exact ⟨h13, h10⟩

lemma inLine_version (major minor : ℕ) :
    ∀ c ∈ stringHttpVersion ++ (numeral 10 major ++ ([46] ++ numeral 10 minor)), InLine c := by
  simp only [List.forall_mem_append]
  exact ⟨inLine_of_all (by decide), inLine_of_numeral major, inLine_of_all (by decide),
    inLine_of_numeral minor⟩

/-- The first line of a request: the version, and the blank before it, may be missing where there
is no query. -/
lemma takesFirstLine_request {s : Session} (hrequest : s.parser.isRequest = true)
    (hst : s.parser.header.headersParseState = .parseMethodStart) {method resource : Bytes}
    (hmethod : IsToken method) (hmethodMax : method.length ≤ methodMax)
    (hresource : IsResource resource) (hresourceMax : resource.length ≤ resourceMax) :
    s.TakesFirstLine (method ++ ([32] ++ resource)) ∧
      ∀ (query : Option Bytes) (major minor : ℕ),
        (∀ q ∈ query, IsQuery q ∧ q.length ≤ queryStringMax) → major < uint16Mod →
        minor < uint16Mod →
        s.TakesFirstLine (method ++ ([32] ++ (resource ++ (query.elim [] (63 :: ·) ++ ([32] ++
          (stringHttpVersion ++ (numeral 10 major ++ ([46] ++ numeral 10 minor)))))))) := by
  obtain ⟨p, m, ec⟩ := s
  obtain ⟨isRequest, readBuf, mst, h, ch, remaining, read, last, total, mx, only, saveRaw⟩ := p
  obtain ⟨st, code, message, method', resource', query', raw, name, value⟩ := h
  obtain rfl : isRequest = true := hrequest
  obtain rfl : st = .parseMethodStart := hst
  have hblank : ∀ w : Bytes, scan (parseHeadersChar true false)
      (⟨.parseMethod, code, message, method, resource', query', raw, name, value⟩, m) ([32] ++ w) =
      scan (parseHeadersChar true false)
      (⟨.parseUriStem, code, message, method, [], query', raw, name, value⟩, m) w := fun _ => rfl
  have hline : ∀ c ∈ method ++ ([32] ++ resource), InLine c := by
    simp only [List.forall_mem_append]
    exact ⟨inLine_of_token hmethod, inLine_of_all (by decide),
      inLine_of_text fun c hc => (hresource c hc).1⟩
  constructor
  · refine takesFirstLine_of_scan hline (t := (⟨.parseUriStem, code, message, method, resource,
      query', raw, name, value⟩, m)) ?_ rfl
    dsimp only
    rw [scan_method hmethod hmethodMax, hblank, ← List.append_nil resource,
      scan_resource hresource hresourceMax, List.append_nil]
    rfl
  · intro query major minor hquery hmajor hminor
    have hversion : ∀ query' : Bytes, scan (parseHeadersChar true false)
        (⟨.parseHttpVersionH, code, message, method, resource, query', raw, name, value⟩, m)
        (stringHttpVersion ++ (numeral 10 major ++ ([46] ++ numeral 10 minor))) =
        ⟨none, [], (⟨.parseHttpVersionMinor, code, message, method, resource, query', raw, name,
          value⟩, (m.setVersionMajor major).setVersionMinor minor)⟩ := by
      intro query'
      rw [← List.append_nil (numeral 10 minor), scan_version hmajor hminor]
      rfl
    have hpart : ∀ c ∈ query.elim [] (63 :: ·), InLine c := by
      cases query with
      | none => simp
      | some q =>
        rw [Option.elim_some, List.forall_mem_cons]
        exact ⟨by unfold InLine; decide,
          inLine_of_text fun c hc => ((hquery q rfl).1 c hc).1⟩
    have hversionLine := inLine_version major minor
    have hblank' : ∀ c ∈ ([32] : Bytes), InLine c := inLine_of_all (by decide)
    rw [← List.append_assoc [32], ← List.append_assoc method]
    refine takesFirstLine_of_scan (t := (⟨.parseHttpVersionMinor, code, message, method, resource,
      query.getD query', raw, name, value⟩, (m.setVersionMajor major).setVersionMinor minor))
      ?_ ?_ rfl
    · exact List.forall_mem_append.2 ⟨hline, List.forall_mem_append.2 ⟨hpart,
        List.forall_mem_append.2 ⟨hblank', hversionLine⟩⟩⟩
    · dsimp only
      rw [List.append_assoc, List.append_assoc, scan_method hmethod hmethodMax, hblank,
        scan_resource hresource hresourceMax]
      cases query with
      | none => exact hversion query'
      | some q =>
        have hmark : ∀ w : Bytes, scan (parseHeadersChar true false)
            (⟨.parseUriStem, code, message, method, resource, query', raw, name, value⟩, m)
            (63 :: w) = scan (parseHeadersChar true false)
            (⟨.parseUriQuery, code, message, method, resource, [], raw, name, value⟩, m) w :=
          fun _ => rfl
        rw [Option.elim_some, List.cons_append, hmark,
          scan_query (hquery q rfl).1 (hquery q rfl).2]
        exact hversion q

/-- The first line of a response: the message, and the blank before it, may be missing. -/
lemma takesFirstLine_response {s : Session} (hresponse : s.parser.isRequest = false)
    (hst : s.parser.header.headersParseState = .parseHttpVersionH) {major minor code : ℕ}
    (hmajor : major < uint16Mod) (hminor : minor < uint16Mod) (hcode : code < uint16Mod)
    {message : Option Bytes} (hmessage : ∀ t ∈ message, IsText t ∧ t.length ≤ statusMessageMax) :
    s.TakesFirstLine (stringHttpVersion ++ (numeral 10 major ++ ([46] ++ (numeral 10 minor ++
      ([32] ++ (numeral 10 code ++ message.elim [] (32 :: ·))))))) := by
  obtain ⟨p, m, ec⟩ := s
  obtain ⟨isRequest, readBuf, mst, h, ch, remaining, read, last, total, mx, only, saveRaw⟩ := p
  obtain ⟨st, code', message', method, resource, query, raw, name, value⟩ := h
  obtain rfl : isRequest = false := hresponse
  obtain rfl : st = .parseHttpVersionH := hst
  have hpart : ∀ c ∈ message.elim [] (32 :: ·), InLine c := by
    cases message with
    | none => simp
    | some t =>
      rw [Option.elim_some, List.forall_mem_cons]
      exact ⟨by unfold InLine; decide, inLine_of_text (hmessage t rfl).1⟩
  have hline : ∀ c ∈ stringHttpVersion ++ (numeral 10 major ++ ([46] ++ (numeral 10 minor ++
      ([32] ++ (numeral 10 code ++ message.elim [] (32 :: ·)))))), InLine c := by
    have hversion := inLine_version major minor
    have hblank : ∀ c ∈ ([32] : Bytes), InLine c := inLine_of_all (by decide)
    simp only [List.forall_mem_append] at hversion ⊢
    obtain ⟨h1, h2, h3, h4⟩ := hversion
    exact ⟨h1, h2, h3, h4, hblank, inLine_of_numeral code, hpart⟩
  have hnumber := scan_number (parseHeadersChar false false)
    (⟨.parseStatusCodeStart, code', message', method, resource, query, raw, name, value⟩,
      (m.setVersionMajor major).setVersionMinor minor)
    (fun n => (⟨.parseStatusCode, n, message', method, resource, query, raw, name, value⟩,
      (m.setVersionMajor major).setVersionMinor minor)) ?_ ?_ hcode
  · have hblank : ∀ w : Bytes, scan (parseHeadersChar false false)
        (⟨.parseHttpVersionMinor, code', message', method, resource, query, raw, name, value⟩,
          (m.setVersionMajor major).setVersionMinor minor) ([32] ++ w) =
        scan (parseHeadersChar false false) (⟨.parseStatusCodeStart, code', message', method,
          resource, query, raw, name, value⟩, (m.setVersionMajor major).setVersionMinor minor) w :=
      fun _ => rfl
    cases message with
    | none =>
      refine takesFirstLine_of_scan (t := (⟨.parseStatusCode, code, message', method, resource,
        query, raw, name, value⟩, (m.setVersionMajor major).setVersionMinor minor)) hline ?_ rfl
      dsimp only [Option.elim_none]
      rw [scan_version hmajor hminor, hblank, hnumber]
      rfl
    | some t =>
      refine takesFirstLine_of_scan (t := (⟨.parseStatusMessage, code, t, method, resource,
        query, raw, name, value⟩, (m.setVersionMajor major).setVersionMinor minor)) hline ?_ rfl
      have hmark : ∀ w : Bytes, scan (parseHeadersChar false false)
          (⟨.parseStatusCode, code, message', method, resource, query, raw, name, value⟩,
            (m.setVersionMajor major).setVersionMinor minor) (32 :: w) =
          scan (parseHeadersChar false false) (⟨.parseStatusMessage, code, [], method, resource,
            query, raw, name, value⟩, (m.setVersionMajor major).setVersionMinor minor) w :=
        fun _ => rfl
      have htext := scan_collect (parseHeadersChar false false)
        (fun acc => (⟨.parseStatusMessage, code, acc, method, resource, query, raw, name, value⟩,
          (m.setVersionMajor major).setVersionMinor minor)) statusMessageMax
        (fun acc c hc hlt => ?_) (hmessage t rfl).1
        (by simpa using (hmessage t rfl).2 : ([] : Bytes).length + t.length ≤ statusMessageMax) []
      · dsimp only [Option.elim_some]
        rw [List.append_nil] at htext
        rw [scan_version hmajor hminor, hblank, hnumber, hmark, htext]
        rfl
      · obtain ⟨h1, h2⟩ := ne_of_text hc
        simp [parseHeadersChar, parseHeadersSwitch, saveRawHeader, hc, h1, h2, not_le.2 hlt]
  · intro c hc
    simp [parseHeadersChar, parseHeadersSwitch, saveRawHeader, hc, Nat.mod_eq_of_lt (digitVal_lt hc)]
  · intro n c hc
    obtain ⟨-, h1, -, -⟩ := ne_of_digit hc
    simp [parseHeadersChar, parseHeadersSwitch, saveRawHeader, hc, h1]

/-- The session without what tells the line ends of a header apart: the text of the header, its
length and the state that it was left in. -/
def lineless (s : Session) : Session :=
  { s with
    parser := { s.parser with
      header := { s.parser.header with headersParseState := .parseHeaderStart, rawHeaders := [] }
      bytesLastRead := 0
      bytesTotalRead := 0 } }

/-- What the lines of a header give in a session. -/
def readHeader (s : Session) (lines : List Bytes) : LoopEnd × (HeaderMachine × HTTPMessage) :=
  readLines s.parser.isRequest (lineView (s.parser.header, s.msg)) lines

/-- A header is read as its lines give: the data is theirs, and a header without an error ends
before the first byte that does not belong to it. -/
lemma parseHeaders_lines {s : Session} {line : Bytes} (hline : s.TakesFirstLine line)
    {lines : List Bytes} (hlines : ∀ l ∈ lines, IsLine l) (e : LineEnd) (w : Bytes) :
    let x := (s.setReadBuffer (e.render (line :: lines) ++ w)).parseHeaders
    let y := s.readHeader (line :: lines)
    (y.1 = .done ∧ x.1 = .yes ∧ x.2.parser.readBuf = w ∧
        x.2.lineless = lineless { s with
          parser := { s.parser with readBuf := w, header := y.2.1 }, msg := y.2.2 }) ∨
      ∃ ev, y.1 = .failed ev ∧ x.1 = .no ∧ x.2.msg = y.2.2 ∧
        x.2.ec = (match ev with | none => s.ec | some ev => .parser ev) := by
  intro x y
  obtain ⟨hl, hnone, hend⟩ := hline
  have hread := scan_headerLines hl hnone hend hlines e w
  have hx : x = parseHeaders (s.setReadBuffer (e.render (line :: lines) ++ w)) := rfl
  have hy : y = readLines s.parser.isRequest (lineView (s.parser.header, s.msg)) (line :: lines) :=
    rfl
  clear_value x y
  rw [parseHeaders] at hx
  dsimp only [setReadBuffer, HTTPParser.setReadBuffer] at hx
  rw [← hy] at hread
  generalize scan (parseHeadersChar s.parser.isRequest s.parser.saveRawHeaders)
    (s.parser.header, s.msg) (e.render (line :: lines) ++ w) = r at hx hread
  obtain ⟨result, rest, h, m⟩ := r
  obtain ⟨r, h', m'⟩ := y
  obtain ⟨hresult, hdata, hrest⟩ := hread
  obtain ⟨hh, hm⟩ := Prod.mk.inj hdata
  dsimp only at hresult hrest hh hm
  subst hresult hm hx
  cases r with
  | done =>
    obtain rfl := hrest rfl
    subst hh
    exact .inl ⟨rfl, rfl, rfl, rfl⟩
  | failed ev => exact .inr ⟨ev, rfl, by cases ev <;> rfl, by cases ev <;> rfl, by cases ev <;> rfl⟩

/-! ### What follows -/

/-- Results that agree on all but what tells the line ends apart. -/
def SameBehind (x y : Tribool × Session) : Prop := x.1 = y.1 ∧ x.2.lineless = y.2.lineless

/-- A function that does not look at it gives such results. -/
lemma sameBehind_of_lineless {F : Session → Tribool × Session} {s s' : Session}
    (h : SameBehind (F s.lineless) (F s)) (h' : SameBehind (F s'.lineless) (F s'))
    (hs : s.lineless = s'.lineless) : SameBehind (F s) (F s') := by
  rw [hs] at h
  exact ⟨h.1.symm.trans h'.1, h.2.symm.trans h'.2⟩

lemma finishHeaderParsing_lineless (s : Session) :
    SameBehind s.lineless.finishHeaderParsing s.finishHeaderParsing := by
  have hheaded : s.lineless.headed = s.headed := rfl
  rw [finishHeaderParsing_eq, finishHeaderParsing_eq, hheaded]
  show SameBehind (s.lineless.startBody (framing s.parser.isRequest s.headed)) _
  cases framing s.parser.isRequest s.headed <;> exact ⟨rfl, rfl⟩

lemma parseChunks_lineless (s : Session) : SameBehind s.lineless.parseChunks s.parseChunks := by
  rw [parseChunks, parseChunks]
  dsimp only [lineless]
  rcases (scan (parseChunksChar s.parser.maxContentLength) (s.parser.chunk, s.msg.chunkCache)
    s.parser.readBuf).result with _ | _ | _ | _ <;> exact ⟨rfl, rfl⟩

lemma consumeContent_lineless (s : Session) :
    SameBehind s.lineless.consumeContent s.consumeContent := by
  rw [consumeContent, consumeContent]
  by_cases hnone : s.parser.bytesContentRemaining = 0
  · rw [if_pos hnone, if_pos (show s.lineless.parser.bytesContentRemaining = 0 from hnone)]
    exact ⟨rfl, rfl⟩
  · rw [if_neg hnone, if_neg (show s.lineless.parser.bytesContentRemaining ≠ 0 from hnone)]
    exact ⟨rfl, rfl⟩

lemma parseRound_lineless {s : Session} (hs : s.InBody) :
    SameBehind s.lineless.parseRound s.parseRound := by
  have hsame : s.lineless.parser.messageParseState = s.parser.messageParseState := rfl
  rw [parseRound, parseRound, hsame]
  rcases hs with hst | hst | hst
  · simp only [hst]
    obtain ⟨hrc, ht⟩ := parseChunks_lineless s
    rw [hrc]
    split_ifs
    · exact ⟨rfl, congrArg (fun t : Session => { t with msg := t.msg.concatenateChunks }) ht⟩
    · exact ⟨rfl, ht⟩
  · simp only [hst]
    exact consumeContent_lineless s
  · simp only [hst]
    exact ⟨rfl, rfl⟩

lemma conclude_lineless (rc : Tribool) (s : Session) :
    SameBehind (conclude rc s.lineless) (conclude rc s) := by
  cases rc <;> exact ⟨rfl, rfl⟩

/-- The loop of `parse` goes on alike behind headers that are read alike. -/
lemma parseLoop_sameBehind {s s' : Session} (hend : s.parser.messageParseState ≠ .parseEnd)
    (hend' : s'.parser.messageParseState ≠ .parseEnd)
    (h : SameBehind s.parseRound s'.parseRound) :
    SameBehind ((parseLoop maxRounds 0 s).1, (parseLoop maxRounds 0 s).2.2)
      ((parseLoop maxRounds 0 s').1, (parseLoop maxRounds 0 s').2.2) := by
  obtain ⟨hrc, ht⟩ := h
  have hbuf : s.parseRound.2.parser.readBuf = s'.parseRound.2.parser.readBuf :=
    (congrArg (fun t : Session => t.parser.readBuf) ht :
      s.parseRound.2.lineless.parser.readBuf = s'.parseRound.2.lineless.parser.readBuf)
  rw [show maxRounds = 0 + 1 + 1 from rfl, parseLoop, parseLoop]
  dsimp only
  rw [if_neg hend, if_neg hend', HTTPParser.eof, HTTPParser.eof, hbuf, hrc]
  split_ifs with hagain
  · obtain ⟨hopen, hrest⟩ := hagain
    have hne : s'.parseRound.2.parser.readBuf ≠ [] := by simpa using hrest
    have hb' := parseRound_again hopen hne
    have hb := parseRound_again (hrc.trans hopen) (hbuf ▸ hne)
    rw [parseLoop_body hb, parseLoop_body hb']
    exact sameBehind_of_lineless (parseRound_lineless hb) (parseRound_lineless hb') ht
  · exact ⟨rfl, ht⟩

lemma parseLoop_no {s : Session} (hend : s.parser.messageParseState ≠ .parseEnd)
    (hno : s.parseRound.1 = .no) :
    parseLoop maxRounds 0 s = (.no, 0 + s.parseRound.2.parser.bytesLastRead, s.parseRound.2) := by
  rw [show maxRounds = 0 + 1 + 1 from rfl, parseLoop]
  dsimp only
  rw [if_neg hend, if_neg (by rw [hno]; simp), hno]

/-- What a caller is told and what it finds in the message. -/
def told (x : Tribool × Session) : Tribool × ErrorCode × HTTPMessage := (x.1, x.2.ec, x.2.msg)

/-- A header is read in a pass of the loop of `parse`, whatever its lines end with. -/
lemma parseRound_lines {s : Session} (hs : s.InHeaders) {line : Bytes} (hline : s.TakesFirstLine line)
    {lines : List Bytes} (hlines : ∀ l ∈ lines, IsLine l) (e e' : LineEnd) (w : Bytes) :
    let x := (s.setReadBuffer (e.render (line :: lines) ++ w)).parseRound
    let y := (s.setReadBuffer (e'.render (line :: lines) ++ w)).parseRound
    SameBehind x y ∨ x.1 = .no ∧ told x = told y := by
  -- the state is that of the headers from the first byte on
  set t : Session := { s with parser := { s.parser with messageParseState := .parseHeaders } } with ht
  have hround : ∀ w, (s.setReadBuffer w).parseRound =
      if (t.setReadBuffer w).parseHeaders.1 = .yes then
        (t.setReadBuffer w).parseHeaders.2.finishHeaderParsing
      else (t.setReadBuffer w).parseHeaders := by
    intro w
    have hsame : (s.setReadBuffer w).parser.messageParseState = s.parser.messageParseState := rfl
    rw [parseRound, hsame]
    rcases hs with hst | hst <;> simp only [hst] <;> rfl
  have htline : t.TakesFirstLine line := hline.congr rfl rfl rfl
  dsimp only
  have hx := hround (e.render (line :: lines) ++ w)
  have hy := hround (e'.render (line :: lines) ++ w)
  rcases parseHeaders_lines htline hlines e w with
    ⟨hdone, hyes, -, hdata⟩ | ⟨ev, hfailed, hno, hmsg, hec⟩
  · rcases parseHeaders_lines htline hlines e' w with
      ⟨-, hyes', -, hdata'⟩ | ⟨ev, hfailed', -⟩
    · rw [if_pos hyes] at hx
      rw [if_pos hyes'] at hy
      refine .inl ?_
      rw [hx, hy]
      exact sameBehind_of_lineless (finishHeaderParsing_lineless _) (finishHeaderParsing_lineless _)
        (hdata.trans hdata'.symm)
    · rw [hdone] at hfailed'
      cases hfailed'
  · rcases parseHeaders_lines htline hlines e' w with
      ⟨hdone', -⟩ | ⟨ev', hfailed', hno', hmsg', hec'⟩
    · rw [hfailed] at hdone'
      cases hdone'
    · obtain rfl : ev = ev' := by
        rw [hfailed] at hfailed'
        exact LoopEnd.failed.inj hfailed'
      rw [if_neg (by rw [hno]; simp)] at hx
      rw [if_neg (by rw [hno']; simp)] at hy
      refine .inr ?_
      rw [hx, hy]
      refine ⟨hno, ?_⟩
      rw [told, told, hno, hno', hmsg, hmsg', hec, hec']

/-- `parse` tells the same and fills in the same message. -/
lemma told_parse {s : Session} (hs : s.InHeaders) {line : Bytes} (hline : s.TakesFirstLine line)
    {lines : List Bytes} (hlines : ∀ l ∈ lines, IsLine l) (e e' : LineEnd) (w : Bytes) :
    told (s.setReadBuffer (e.render (line :: lines) ++ w)).parse =
      told (s.setReadBuffer (e'.render (line :: lines) ++ w)).parse := by
  have hmark : ∀ w, (s.setReadBuffer w).markData = s.markData.setReadBuffer w := by
    intro w
    by_cases hmissing : s.msg.hasMissingPackets = true
    · rw [markData, markData, if_pos hmissing]
      exact if_pos hmissing
    · rw [markData, markData, if_neg hmissing]
      exact if_neg hmissing
  have hparser := parser_markData s
  have hs' : s.markData.InHeaders := by rwa [InHeaders, hparser]
  have hend : ∀ w, (s.markData.setReadBuffer w).parser.messageParseState ≠ .parseEnd := by
    intro w
    have hsame : (s.markData.setReadBuffer w).parser.messageParseState =
        s.markData.parser.messageParseState := rfl
    rw [hsame]
    rcases hs' with hst | hst <;> rw [hst] <;> simp
  have hline' : s.markData.TakesFirstLine line :=
    hline.congr (by rw [hparser]) (by rw [hparser]) (by rw [hparser])
  rw [parse, parse, hmark, hmark]
  dsimp only
  rcases parseRound_lines hs' hline' hlines e e' w with hround | ⟨hno, htold⟩
  · obtain ⟨hrc, ht⟩ := parseLoop_sameBehind (hend _) (hend _) hround
    dsimp only at hrc ht
    rw [hrc]
    generalize (parseLoop maxRounds 0
      (s.markData.setReadBuffer (e'.render (line :: lines) ++ w))).1 = rc
    have hsame := sameBehind_of_lineless (conclude_lineless rc _) (conclude_lineless rc _) ht
    have hec := congrArg Session.ec hsame.2
    have hmsg := congrArg Session.msg hsame.2
    exact congrArg₂ Prod.mk hsame.1 (congrArg₂ Prod.mk hec hmsg)
  · obtain ⟨hrc, hec, hmsg⟩ : _ ∧ _ ∧ _ := ⟨congrArg Prod.fst htold,
      congrArg (fun x => x.2.1) htold, congrArg (fun x => x.2.2) htold⟩
    rw [parseLoop_no (hend _) hno, parseLoop_no (hend _) (hrc.symm.trans hno)]
    exact congrArg₂ Prod.mk rfl
      (congrArg₂ Prod.mk hec (congrArg (fun m => computeMsgStatus m false) hmsg))

/-- `parse` tells the same and fills in the same message, whatever the lines of a header end with.
A header whose lines are read without an error is taken to its last byte. -/
theorem parse_line_ends {s : Session} (hs : s.InHeaders) {line : Bytes}
    (hline : s.TakesFirstLine line) {lines : List Bytes} (hlines : ∀ l ∈ lines, IsLine l)
    (e e' : LineEnd) (w : Bytes) :
    let x (e : LineEnd) := s.setReadBuffer (e.render (line :: lines) ++ w)
    told (x e).parse = told (x e').parse ∧
      told (x e).parseHeaders = told (x e').parseHeaders ∧
      ((x e).parseHeaders.1 ≠ .no → (x e).parseHeaders.2.parser.readBuf = w ∧
        (x e).parseHeaders.2.lineless = (x e').parseHeaders.2.lineless) ∧
      ((∀ l ∈ lines, IsHeaderLine l) → (x e).parseHeaders.1 = .yes) := by
  intro x
  refine ⟨told_parse hs hline hlines e e' w, ?_⟩
  rcases parseHeaders_lines hline hlines e w with
    ⟨hdone, hyes, hrest, hdata⟩ | ⟨ev, hfailed, hno, hmsg, hec⟩
  · rcases parseHeaders_lines hline hlines e' w with
      ⟨-, hyes', -, hdata'⟩ | ⟨ev, hfailed', -⟩
    · have hsame := hdata.trans hdata'.symm
      refine ⟨?_, fun _ => ⟨hrest, hsame⟩, fun _ => hyes⟩
      have hec := congrArg Session.ec hsame
      have hmsg := congrArg Session.msg hsame
      exact congrArg₂ Prod.mk (hyes.trans hyes'.symm) (congrArg₂ Prod.mk hec hmsg)
    · rw [hdone] at hfailed'
      cases hfailed'
  · rcases parseHeaders_lines hline hlines e' w with
      ⟨hdone', -⟩ | ⟨ev', hfailed', hno', hmsg', hec'⟩
    · rw [hfailed] at hdone'
      cases hdone'
    · obtain rfl : ev = ev' := by
        rw [hfailed] at hfailed'
        exact LoopEnd.failed.inj hfailed'
      refine ⟨?_, fun h => absurd hno h, fun hheaders => ?_⟩
      · rw [told, told, hno, hno', hmsg, hmsg', hec, hec']
      · have hread := readLine_firstLine hline.1 hline.2.1 hline.2.2
        rw [readHeader, readLines, hread] at hfailed
        dsimp only at hfailed
        rw [readLines_headerLines rfl hheaders] at hfailed
        cases hfailed

/-- A request without a version and a body that starts with a line end. -/
theorem parse_line_ends_simple :
    let s := newSession true 100 false true (.newRequest []) .success
    let line := ascii "GET" ++ ([32] ++ ascii "/")
    let lines := [ascii "Host: a", ascii "X:"]
    let x (e : LineEnd) := s.setReadBuffer (e.render (line :: lines) ++ ascii "\nb")
    told (x .crlf).parse = told (x .cr).parse ∧
      told (x .crlf).parseHeaders = told (x .cr).parseHeaders ∧
      ((x .crlf).parseHeaders.1 ≠ .no → (x .crlf).parseHeaders.2.parser.readBuf = ascii "\nb" ∧
        (x .crlf).parseHeaders.2.lineless = (x .cr).parseHeaders.2.lineless) ∧
      ((∀ l ∈ [ascii "Host: a", ascii "X:"], IsHeaderLine l) →
        (x .crlf).parseHeaders.1 = .yes) := by
  have hline : (newSession true 100 false true (.newRequest []) .success).TakesFirstLine
      (ascii "GET" ++ ([32] ++ ascii "/")) :=
    (takesFirstLine_request rfl rfl (by decide) (by decide) (by decide) (by decide)).1
  refine parse_line_ends (.inl rfl) hline ?_ .crlf .cr (ascii "\nb")
  rw [List.forall_mem_cons, List.forall_mem_singleton]
  exact ⟨⟨by decide, inLine_of_all (by decide)⟩, ⟨by decide, inLine_of_all (by decide)⟩⟩

end Session

end PionCore.Net
