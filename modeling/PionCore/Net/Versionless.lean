/-
# Requests without a version

A request line may end behind the resource; the version is then 0.0.  Of the forms that the
comments of the header machine name it reads this one only: behind a query a line end is a control
character, and behind a blank the state that is chosen for the end of the line is overwritten by
the one for the letters of `HTTP/`.
-/
import PionCore.Net.LineEnds
import PionCore.Net.HTTPTransfer

namespace PionCore.Net

open PionCore.Lib

/-- A request line without a version, and with or without a query and a blank at the end. -/
def simpleLine (method resource : Bytes) (query : Option Bytes) (blank : Bool) : Bytes :=
  method ++ ([32] ++ (resource ++ (query.elim [] (63 :: ·) ++ if blank then [32] else [])))

/-! ### The text of the header is not read again -/

/-- What the machine has read and its state. -/
def rawless (s : HeaderMachine × HTTPMessage) : HeaderMachine × HTTPMessage :=
  ({ s.1 with rawHeaders := [] }, s.2)

lemma parseHeadersChar_rawless (isRequest saveRaw : Bool) (s : HeaderMachine × HTTPMessage)
    (c : Byte) :
    (parseHeadersChar isRequest saveRaw s c).map rawless =
      (parseHeadersChar isRequest false (rawless s) c).map rawless := by
  obtain ⟨⟨st, code, message, method, resource, query, raw, name, value⟩, m⟩ := s
  obtain ⟨raw', hraw⟩ := saveRawHeader_mk saveRaw st code message method resource query raw name
    value c
  cases st
  all_goals
    simp only [parseHeadersChar, hraw, rawless, saveRawHeader_false, parseHeadersSwitch,
      parseHeaderNameStart, parseHttpLetter, ge_iff_le]
    (try split_ifs) <;> rfl

lemma scan_rawless (isRequest saveRaw : Bool) (s : HeaderMachine × HTTPMessage) (w : Bytes) :
    (scan (parseHeadersChar isRequest saveRaw) s w).map rawless =
      (scan (parseHeadersChar isRequest false) (rawless s) w).map rawless := by
  have hstart : rawless s = rawless (rawless s) := rfl
  refine scan_view (P := fun _ => True) (fun t t' c _ ht => ?_) hstart fun _ _ => trivial
  rw [parseHeadersChar_rawless, ht, ← parseHeadersChar_rawless]

/-! ### Behind the first line -/

/-- The states behind the words and the numbers of the first line. -/
def HeadersParseState.behindFirstLine (st : HeadersParseState) : Bool :=
  st.startsLine || st.inHeaderLine || st = .parseStatusMessage ||
    st = .parseExpectingFinalNewline || st = .parseExpectingFinalCr

/-- The words and the numbers of the first line. -/
def firstLineData (s : HeaderMachine × HTTPMessage) :
    (ℕ × Bytes × Bytes × Bytes) × MessageKind × ℕ × ℕ :=
  ((s.1.statusCode, s.1.method, s.1.resource, s.1.queryString), s.2.kind, s.2.versionMajor,
    s.2.versionMinor)

lemma behindFirstLine_turn (isRequest : Bool) {s : HeaderMachine × HTTPMessage} (c : Byte)
    (hs : s.1.headersParseState.behindFirstLine = true) :
    (parseHeadersChar isRequest false s c).state.1.headersParseState.behindFirstLine = true ∧
      firstLineData (parseHeadersChar isRequest false s c).state = firstLineData s := by
  obtain ⟨⟨st, code, message, method, resource, query, raw, name, value⟩, m⟩ := s
  cases st
  all_goals first
    | cases hs; done
    | simp only [parseHeadersChar, parseHeadersSwitch, parseHeaderNameStart, saveRawHeader,
        if_false, Bool.false_eq_true]
      (try split_ifs) <;> exact ⟨rfl, rfl⟩

/-- Behind the words and numbers of the first line they stay as they are. -/
lemma scan_behindFirstLine {isRequest : Bool} {s : HeaderMachine × HTTPMessage}
    (hs : s.1.headersParseState.behindFirstLine = true) (w : Bytes) :
    firstLineData (scan (parseHeadersChar isRequest false) s w).state = firstLineData s := by
  refine (scan_keeps (P := fun t => t.1.headersParseState.behindFirstLine = true ∧
    firstLineData t = firstLineData s) (fun t c ht => ?_) s w ⟨hs, rfl⟩).2
  obtain ⟨hbehind, hdata⟩ := behindFirstLine_turn isRequest c ht.1
  exact ⟨hbehind, hdata.trans ht.2⟩

/-! ### Behind the blank -/

/-- One of the letters of `HTTP/`. -/
lemma scan_letter {isRequest : Bool} {st st' : HeadersParseState} {letter : Byte}
    (hturn : ∀ (p : HeaderMachine) (m : HTTPMessage) (c : Byte), p.headersParseState = st →
      parseHeadersSwitch isRequest p m c = parseHttpLetter p m c letter st')
    {p : HeaderMachine} (hp : p.headersParseState = st) {m : HTTPMessage} {w : Bytes}
    (h : (scan (parseHeadersChar isRequest false) (p, m) w).result = some .done) :
    ∃ v, w = letter :: v ∧ scan (parseHeadersChar isRequest false) (p, m) w =
      scan (parseHeadersChar isRequest false) ({ p with headersParseState := st' }, m) v := by
  cases w with
  | nil => cases h
  | cons c w =>
    have hc : parseHeadersChar isRequest false (p, m) c = parseHttpLetter p m c letter st' :=
      hturn p m c hp
    rw [parseHttpLetter] at hc
    by_cases hletter : c = letter
    · rw [if_neg (not_not.2 hletter)] at hc
      exact ⟨w, by rw [hletter], scan_next hc w⟩
    · rw [if_pos hletter] at hc
      rw [scan_halt hc] at h
      cases h

/-- Behind the first letter of `HTTP/`, only the others are read. -/
lemma scan_letters {isRequest : Bool} {p : HeaderMachine}
    (hp : p.headersParseState = .parseHttpVersionT1) {m : HTTPMessage} {w : Bytes}
    (h : (scan (parseHeadersChar isRequest false) (p, m) w).result = some .done) :
    ∃ v, w = [84, 84, 80, 47] ++ v ∧ scan (parseHeadersChar isRequest false) (p, m) w =
      scan (parseHeadersChar isRequest false)
        ({ p with headersParseState := .parseHttpVersionMajorStart }, m) v := by
  obtain ⟨w1, rfl, h1⟩ := scan_letter
    (fun p m c hp => by rw [parseHeadersSwitch, hp]) hp h
  rw [h1] at h ⊢
  obtain ⟨w2, rfl, h2⟩ := scan_letter
    (fun p m c hp => by rw [parseHeadersSwitch, hp]) rfl h
  rw [h2] at h ⊢
  obtain ⟨w3, rfl, h3⟩ := scan_letter
    (fun p m c hp => by rw [parseHeadersSwitch, hp]) rfl h
  rw [h3] at h ⊢
  obtain ⟨w4, rfl, h4⟩ := scan_letter
    (fun p m c hp => by rw [parseHeadersSwitch, hp]) rfl h
  exact ⟨w4, rfl, h4⟩

/-- No header starts with it. -/
lemma not_letters_headerLine {l : Bytes} (hl : IsHeaderLine l) (w v : Bytes) :
    l ++ w ≠ [84, 84, 80, 47] ++ v := by
  obtain ⟨name, value, hname, -, -, -, hform⟩ := hl
  have hcolon : ∃ u, l ++ w = name ++ 58 :: u := by
    rcases hform with rfl | rfl | ⟨rfl, -⟩
    · exact ⟨32 :: value ++ w, by simp⟩
    · exact ⟨w, by simp⟩
    · exact ⟨value ++ w, by simp⟩
  obtain ⟨u, hu⟩ := hcolon
  rw [hu]
  intro h
  have hslash : badTokenChar 47 = true := by decide
  obtain ⟨-, hname⟩ := hname
  rcases name with _ | ⟨_, _ | ⟨_, _ | ⟨_, _ | ⟨d, name⟩⟩⟩⟩
  · simp at h
  · simp at h
  · simp at h
  · simp at h
  · have hd : d = 47 := by
      simp only [List.cons_append, List.cons.injEq] at h
      exact h.2.2.2.1
    have hgood := hname d (by simp)
    rw [hd, hslash] at hgood
    cases hgood

/-! ### The words of the line -/

section Line

variable {m : HTTPMessage} {code : ℕ} {message method resource query name value : Bytes}

/-- A method that is too long is refused. -/
lemma scan_method_full {s : Bytes} (hs : IsToken s) (hmax : methodMax < s.length) (rest : Bytes) :
    (scan (parseHeadersChar true false)
      (⟨.parseMethodStart, code, message, method, resource, query, [], name, value⟩, m)
      (s ++ rest)).result = some (.failed (some .methodSize)) := by
  obtain ⟨hne, hs⟩ := hs
  obtain ⟨c, w, rfl⟩ := List.exists_cons_of_ne_nil hne
  have hfirst : parseHeadersChar true false
      (⟨.parseMethodStart, code, message, method, resource, query, [], name, value⟩, m) c =
        .next (⟨.parseMethod, code, message, [c], resource, query, [], name, value⟩, m) := by
    have hc := hs c List.mem_cons_self
    obtain ⟨-, h1, h2, h3, -⟩ := ne_of_token hc
    simp [parseHeadersChar, parseHeadersSwitch, saveRawHeader, h1, h2, h3, hc]
  rw [List.cons_append, scan_next hfirst]
  have hone : ([c] : Bytes).length ≤ methodMax := by
    rw [List.length_singleton]
    decide
  refine scan_collect_full (b := false) (parseHeadersChar true false)
    (fun acc => (⟨.parseMethod, code, message, acc, resource, query, [], name, value⟩, m)) methodMax
    (fun acc d hd hlt => ?_) (fun acc d hd heq => ?_)
    (fun d hd => hs d (List.mem_cons_of_mem c hd)) hone
    (by rwa [List.length_cons, Nat.add_comm] at hmax) rest
  · obtain ⟨-, -, -, h3, -⟩ := ne_of_token hd
    simp [parseHeadersChar, parseHeadersSwitch, saveRawHeader, h3, hd, not_le.2 hlt]
  · obtain ⟨-, -, -, h3, -⟩ := ne_of_token hd
    simp [parseHeadersChar, parseHeadersSwitch, saveRawHeader, h3, hd, heq.ge]

/-- So is a resource. -/
lemma scan_resource_full {s : Bytes} (hs : IsResource s) (hmax : resourceMax < s.length)
    (rest : Bytes) :
    (scan (parseHeadersChar true false)
      (⟨.parseUriStem, code, message, method, [], query, [], name, value⟩, m)
      (s ++ rest)).result = some (.failed (some .uriSize)) := by
  have hempty : ([] : Bytes).length ≤ resourceMax := Nat.zero_le _
  refine scan_collect_full (b := false) (parseHeadersChar true false)
    (fun acc => (⟨.parseUriStem, code, message, method, acc, query, [], name, value⟩, m)) resourceMax
    (fun acc d hd hlt => ?_) (fun acc d hd heq => ?_) hs hempty
    (by rwa [List.length_nil, Nat.zero_add]) rest
  · obtain ⟨h1, h2⟩ := ne_of_text hd.1
    simp [parseHeadersChar, parseHeadersSwitch, saveRawHeader, hd, h1, h2, not_le.2 hlt]
  · obtain ⟨h1, h2⟩ := ne_of_text hd.1
    simp [parseHeadersChar, parseHeadersSwitch, saveRawHeader, hd, h1, h2, heq.ge]

/-- Behind a blank, no line end of a request line is accepted. -/
lemma scan_blank_ne {p : HeaderMachine} (hp : p.headersParseState = .parseHttpVersionH)
    {lines : List Bytes} (hlines : ∀ l ∈ lines, IsHeaderLine l) (e : LineEnd) (w : Bytes) :
    (scan (parseHeadersChar true false) (p, m) (e.bytes ++ (e.render lines ++ w))).result ≠
      some .done := by
  intro h
  obtain ⟨st, code, message, method, resource, query, raw, name, value⟩ := p
  obtain rfl : st = .parseHttpVersionH := hp
  -- the state is that of the first `T` behind the first byte of the line end
  obtain ⟨c, u, hu, hc⟩ : ∃ c u, e.bytes ++ (e.render lines ++ w) = c :: u ∧
      parseHeadersChar true false (⟨.parseHttpVersionH, code, message, method, resource, query, raw,
        name, value⟩, m) c = .next (⟨.parseHttpVersionT1, code, message, method, resource, query,
        raw, name, value⟩, (m.setVersionMajor 0).setVersionMinor 0) := by
    cases e <;> exact ⟨_, _, rfl, rfl⟩
  rw [hu, scan_next hc] at h
  obtain ⟨v, hv, -⟩ := scan_letters rfl h
  have hletters : e.bytes ++ (e.render lines ++ w) = c :: ([84, 84, 80, 47] ++ v) := by
    rw [hu, hv]
  cases lines with
  | nil => cases e <;> simp [LineEnd.render, LineEnd.bytes] at hletters
  | cons l lines =>
    rw [LineEnd.render_cons] at hletters
    cases e with
    | crlf => simp [LineEnd.bytes] at hletters
    | cr =>
      exact not_letters_headerLine (hlines l List.mem_cons_self) _ v (List.cons.inj hletters).2
    | lf =>
      exact not_letters_headerLine (hlines l List.mem_cons_self) _ v (List.cons.inj hletters).2

/-- Behind a query, no line end is. -/
lemma scan_query_ne {q : Bytes} (hq : IsQuery q) {blank : Bool} {lines : List Bytes}
    (hlines : ∀ l ∈ lines, IsHeaderLine l) (e : LineEnd) (w : Bytes) :
    (scan (parseHeadersChar true false)
      (⟨.parseUriQuery, code, message, method, resource, [], [], name, value⟩, m)
      (q ++ ((if blank then [32] else []) ++ (e.bytes ++ (e.render lines ++ w))))).result ≠
        some .done := by
  by_cases hmax : q.length ≤ queryStringMax
  · rw [scan_query hq hmax]
    cases blank with
    | true => exact scan_blank_ne rfl hlines e w
    | false =>
      have hline : (scan (parseHeadersChar true false)
          (⟨.parseUriQuery, code, message, method, resource, q, [], name, value⟩, m)
          (e.bytes ++ (e.render lines ++ w))).result = some (.failed (some .queryChar)) := by
        cases e <;> rfl
      exact fun h => by cases hline.symm.trans h
  · have hempty : ([] : Bytes).length ≤ queryStringMax := Nat.zero_le _
    have hfull := scan_collect_full (b := false) (r := .failed (some .querySize))
      (parseHeadersChar true false)
      (fun acc => (⟨.parseUriQuery, code, message, method, resource, acc, [], name, value⟩, m))
      queryStringMax (fun acc d hd hlt => ?_) (fun acc d hd heq => ?_) hq hempty
      (by rw [List.length_nil, Nat.zero_add]; omega)
    · exact fun h => by cases (hfull _).symm.trans h
    · simp [parseHeadersChar, parseHeadersSwitch, saveRawHeader, hd, not_le.2 hlt]
    · simp [parseHeadersChar, parseHeadersSwitch, saveRawHeader, hd, heq.ge]

/-- A line that ends behind the resource is read, and so is the header behind it. -/
lemma scan_simpleLine {method' resource' : Bytes} (hmethod : IsToken method)
    (hmethodMax : method.length ≤ methodMax) (hresource : IsResource resource)
    (hresourceMax : resource.length ≤ resourceMax) {lines : List Bytes}
    (hlines : ∀ l ∈ lines, IsHeaderLine l) (e : LineEnd) (w : Bytes) :
    ∃ t, scan (parseHeadersChar true false)
        (⟨.parseMethodStart, code, message, method', resource', [], [], name, value⟩, m)
        (e.render (simpleLine method resource none false :: lines) ++ w) = ⟨some .done, w, t⟩ ∧
      firstLineData t = ((code, method, resource, []), m.kind, 0, 0) := by
  have hblank : ∀ w : Bytes, scan (parseHeadersChar true false)
      (⟨.parseMethod, code, message, method, resource', [], [], name, value⟩, m) ([32] ++ w) =
      scan (parseHeadersChar true false)
      (⟨.parseUriStem, code, message, method, [], [], [], name, value⟩, m) w := fun _ => rfl
  obtain ⟨u, hu, hstart, hdata⟩ : ∃ u : HeaderMachine × HTTPMessage,
      (∀ w, scan (parseHeadersChar true false)
        (⟨.parseUriStem, code, message, method, resource, [], [], name, value⟩, m) (e.bytes ++ w) =
        scan (parseHeadersChar true false) u w) ∧ u.1.headersParseState = e.stateBehind ∧
      firstLineData u = ((code, method, resource, []), m.kind, 0, 0) := by
    cases e <;> exact ⟨_, fun _ => rfl, rfl, rfl⟩
  have hread := @scan_lines true false u e hstart lines (fun l hl => isLine_of_headerLine (hlines l hl)) w
  have hbehind : u.1.headersParseState.behindFirstLine = true := by
    rw [hstart]
    cases e <;> rfl
  have hkeep := @scan_behindFirstLine true u hbehind (e.render lines ++ w)
  rw [LineEnd.render_cons, simpleLine, Option.elim_none, if_neg Bool.false_ne_true,
    List.append_nil, List.append_nil, List.append_assoc, List.append_assoc,
    scan_method hmethod hmethodMax, hblank, scan_resource hresource hresourceMax, hu]
  generalize scan (parseHeadersChar true false) u (e.render lines ++ w) = x at hread hkeep ⊢
  obtain ⟨result, rest, t⟩ := x
  obtain ⟨hresult, -, hrest⟩ := hread
  rw [readLines_headerLines rfl hlines] at hresult hrest
  obtain rfl : result = some .done := hresult
  obtain rfl : rest = w := hrest rfl
  exact ⟨t, rfl, hkeep.trans hdata⟩

/-- No other line of the form is. -/
lemma simpleLine_of_done {method' resource' : Bytes} {query : Option Bytes} {blank : Bool}
    (hmethod : IsToken method) (hresource : IsResource resource) (hquery : ∀ q ∈ query, IsQuery q)
    {lines : List Bytes} (hlines : ∀ l ∈ lines, IsHeaderLine l) {e : LineEnd} {w : Bytes}
    (h : (scan (parseHeadersChar true false)
      (⟨.parseMethodStart, code, message, method', resource', [], [], name, value⟩, m)
      (e.render (simpleLine method resource query blank :: lines) ++ w)).result = some .done) :
    query = none ∧ blank = false ∧ method.length ≤ methodMax ∧ resource.length ≤ resourceMax := by
  have hblank : ∀ w : Bytes, scan (parseHeadersChar true false)
      (⟨.parseMethod, code, message, method, resource', [], [], name, value⟩, m) ([32] ++ w) =
      scan (parseHeadersChar true false)
      (⟨.parseUriStem, code, message, method, [], [], [], name, value⟩, m) w := fun _ => rfl
  rw [LineEnd.render_cons, simpleLine, List.append_assoc, List.append_assoc, List.append_assoc,
    List.append_assoc] at h
  by_cases hmethodMax : method.length ≤ methodMax
  · rw [scan_method hmethod hmethodMax, hblank] at h
    by_cases hresourceMax : resource.length ≤ resourceMax
    · rw [scan_resource hresource hresourceMax] at h
      cases query with
      | some q => exact absurd h (scan_query_ne (hquery q rfl) hlines e w)
      | none =>
        cases blank with
        | true => exact absurd h (scan_blank_ne rfl hlines e w)
        | false => exact ⟨rfl, rfl, hmethodMax, hresourceMax⟩
    · rw [scan_resource_full hresource (by omega)] at h
      cases h
  · rw [scan_method_full hmethod (by omega)] at h
    cases h

end Line

namespace Session

/-- A session before the first byte of a request. -/
structure AtRequest (s : Session) : Prop where
  request : s.parser.isRequest = true
  kind : s.msg.isRequest = true
  state : s.parser.header.headersParseState = .parseMethodStart
  query : s.parser.header.queryString = []

/-- The header was read, with version 0.0 and the words of the first line. -/
structure ReadSimple (x : Tribool × Session) (w method resource queryString : Bytes) : Prop where
  result : x.1 = .yes
  rest : x.2.parser.readBuf = w
  fields : x.2.headed.firstLineFields = .inl (method, resource, queryString)
  version : (x.2.headed.versionMajor, x.2.headed.versionMinor) = (0, 0)

/-- The result is that of the machine that does not save the text. -/
lemma parseHeaders_rawless (s : Session) (w : Bytes) :
    let x := scan (parseHeadersChar s.parser.isRequest false) (rawless (s.parser.header, s.msg)) w
    ∃ h m, rawless (h, m) = rawless x.state ∧
      (s.setReadBuffer w).parseHeaders = (s.setReadBuffer w).afterLoop
        { s.parser with readBuf := w, header := h } m x.rest false x.result := by
  have hsame := scan_rawless s.parser.isRequest s.parser.saveRawHeaders (s.parser.header, s.msg) w
  simp only [Scanned.map, Scanned.mk.injEq] at hsame
  obtain ⟨hresult, hrest, hstate⟩ := hsame
  refine ⟨_, _, hstate, ?_⟩
  rw [parseHeaders]
  dsimp only [setReadBuffer, HTTPParser.setReadBuffer]
  rw [hresult, hrest]

lemma afterLoop_yes {s : Session} {p : HTTPParser} {m : HTTPMessage} {rest : Bytes} {content : Bool}
    {r : Option LoopEnd} (h : (s.afterLoop p m rest content r).1 = .yes) : r = some .done := by
  rcases r with _ | _ | _ | _
  case some.done => rfl
  all_goals cases h

/-- A request line without a version is read exactly if it has no query and no blank at its end,
and its words are not too long. -/
theorem readSimple_iff {s : Session} (hs : s.AtRequest) {method resource : Bytes}
    (hmethod : IsToken method) (hresource : IsResource resource) {query : Option Bytes}
    (hquery : ∀ q ∈ query, IsQuery q) (blank : Bool) (e : LineEnd) {lines : List Bytes}
    (hlines : ∀ l ∈ lines, IsHeaderLine l) (w : Bytes) :
    ReadSimple (s.setReadBuffer
        (e.render (simpleLine method resource query blank :: lines) ++ w)).parseHeaders
      w method resource (query.getD []) ↔
      query = none ∧ blank = false ∧ method.length ≤ methodMax ∧ resource.length ≤ resourceMax := by
  obtain ⟨h, m, hstate, hparse⟩ := s.parseHeaders_rawless
    (e.render (simpleLine method resource query blank :: lines) ++ w)
  have hstart : rawless (s.parser.header, s.msg) = (⟨.parseMethodStart, s.parser.header.statusCode,
      s.parser.header.statusMessage, s.parser.header.method, s.parser.header.resource, [], [],
      s.parser.header.headerName, s.parser.header.headerValue⟩, s.msg) := by
    rw [rawless, ← hs.state, ← hs.query]
  rw [hs.request, hstart] at hstate hparse
  constructor
  · intro hread
    have hyes := hread.result
    rw [hparse] at hyes
    exact simpleLine_of_done hmethod hresource hquery hlines (afterLoop_yes hyes)
  · rintro ⟨rfl, rfl, hmethodMax, hresourceMax⟩
    obtain ⟨t, ht, hdata⟩ := @scan_simpleLine s.msg s.parser.header.statusCode
      s.parser.header.statusMessage method resource s.parser.header.headerName
      s.parser.header.headerValue s.parser.header.method s.parser.header.resource hmethod hmethodMax
      hresource hresourceMax lines hlines e w
    rw [ht] at hstate hparse
    have hdata' : firstLineData (h, m) = _ :=
      (congrArg firstLineData hstate : firstLineData (rawless (h, m)) = _).trans hdata
    simp only [firstLineData, Prod.mk.injEq] at hdata'
    obtain ⟨⟨-, hmethod', hresource', hquery'⟩, hkind, hmajor, hminor⟩ := hdata'
    -- the message before the data of the header is filled in
    set m0 := { m with contentLength := 0 }.updateTransferCodingUsingHeader with hm0
    have hkept : m0 = { m with contentLength := 0, isChunked := m0.isChunked } := by
      rw [hm0, updateTransferCodingUsingHeader_eq]
    have hone : m0.isRequest = true := by
      rw [HTTPMessage.isRequest, hkept, hkind]
      exact hs.kind
    have hhead := head_updateMessageWithHeaderData (h := h) (m := m0) (by simp [hone])
    have hheaded : (parseHeaders (s.setReadBuffer
        (e.render (simpleLine method resource none false :: lines) ++ w))).2.headed =
        updateMessageWithHeaderData m0.isRequest h m0 := by
      rw [hparse, hone, ← hs.request]
      rfl
    have hfields := congrArg Prod.fst hhead
    have hversion := congrArg (fun x => x.2.1) hhead
    refine ⟨by rw [hparse]; rfl, by rw [hparse]; rfl, ?_, ?_⟩
    · rw [hheaded]
      refine hfields.trans ?_
      rw [hone, HeaderMachine.fields, if_pos rfl, hmethod', hresource', hquery']
      rfl
    · rw [hheaded]
      refine hversion.trans ?_
      rw [hkept, hmajor, hminor]

/-- A line end behind the resource. -/
theorem readSimple_iff_slash :
    ReadSimple ((newSession true 100 false false (.newRequest []) .success).setReadBuffer
        (LineEnd.crlf.render (simpleLine (ascii "GET") (ascii "/") none false :: [ascii "A: b"]) ++
          ascii "x")).parseHeaders (ascii "x") (ascii "GET") (ascii "/") [] ↔
      (none : Option Bytes) = none ∧ false = false ∧ (ascii "GET").length ≤ methodMax ∧
        (ascii "/").length ≤ resourceMax := by
  have hline : ∀ l ∈ [ascii "A: b"], IsHeaderLine l := by
    rw [List.forall_mem_singleton]
    exact ⟨ascii "A", ascii "b", by decide, by decide, by decide, by decide, .inl (by decide)⟩
  exact @readSimple_iff (newSession true 100 false false (.newRequest []) .success)
    ⟨rfl, rfl, rfl, rfl⟩ (ascii "GET") (ascii "/") (by decide) (by decide) none (by simp) false
    .crlf _ hline (ascii "x")

/-- A blank before the line end is refused. -/
theorem not_readSimple :
    ¬ ∀ (query : Option Bytes) (blank : Bool), (∀ q ∈ query, IsQuery q) →
      ReadSimple ((newSession true 100 false false (.newRequest []) .success).setReadBuffer
        (LineEnd.crlf.render [simpleLine (ascii "GET") (ascii "/") query blank] ++
          ascii "x")).parseHeaders (ascii "x") (ascii "GET") (ascii "/") (query.getD []) := by
  intro h
  have hblank := (h none true (by simp)).result
  revert hblank
  decide +kernel

end Session

end PionCore.Net
