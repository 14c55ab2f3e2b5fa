/-
# The text of a header

What the header machine makes of the first line and the headers that a message is written
with: it reads the fields of the line, and adds the headers in the order in which they
stand.
-/
import PionCore.Net.HTTPParser

namespace PionCore.Net

open PionCore.Lib

/-! ### The words of a header -/

/-- A non-empty token, as method and header names are. -/
def IsToken (s : Bytes) : Prop := s ≠ [] ∧ ∀ c ∈ s, badTokenChar c = false

/-- A text without control characters. -/
def IsText (s : Bytes) : Prop := ∀ c ∈ s, isControl c = false

/-- A resource: neither spaces nor control characters, and no query. -/
def IsResource (s : Bytes) : Prop := ∀ c ∈ s, isControl c = false ∧ c ≠ 32 ∧ c ≠ 63

/-- A query string: neither spaces nor control characters. -/
def IsQuery (s : Bytes) : Prop := ∀ c ∈ s, isControl c = false ∧ c ≠ 32

-- only the bytes of the word are tried, and not all there are
instance (s : Bytes) : Decidable (IsText s) := List.decidableBAll (fun c => isControl c = false) s
instance (s : Bytes) : Decidable (IsResource s) :=
  List.decidableBAll (fun c => isControl c = false ∧ c ≠ 32 ∧ c ≠ 63) s
instance (s : Bytes) : Decidable (IsQuery s) :=
  List.decidableBAll (fun c => isControl c = false ∧ c ≠ 32) s
instance (s : Bytes) : Decidable (IsToken s) :=
  @instDecidableAnd _ _ _ (List.decidableBAll (fun c => badTokenChar c = false) s)

/-- A header that the parser can read. -/
structure HeaderOk (e : Bytes × Bytes) : Prop where
  name : IsToken e.1
  nameMax : e.1.length ≤ headerNameMax
  value : IsText e.2
  valueMax : e.2.length ≤ headerValueMax

/-- The bytes that are treated as separators are not bytes of a token. -/
lemma ne_of_token {c : Byte} (h : badTokenChar c = false) :
    c ≠ 9 ∧ c ≠ 10 ∧ c ≠ 13 ∧ c ≠ 32 ∧ c ≠ 58 := by
  refine ⟨?_, ?_, ?_, ?_, ?_⟩ <;>
  · rintro rfl
    exact absurd h (by decide)

lemma ne_of_text {c : Byte} (h : isControl c = false) : c ≠ 13 ∧ c ≠ 10 := by
  constructor <;>
  · rintro rfl
    exact absurd h (by decide)

lemma ne_of_digit {c : Byte} (h : isDigit c = true) : c ≠ 46 ∧ c ≠ 32 ∧ c ≠ 13 ∧ c ≠ 10 := by
  refine ⟨?_, ?_, ?_, ?_⟩ <;>
  · rintro rfl
    exact absurd h (by decide)

lemma text_of_digit {c : Byte} (h : isDigit c = true) : isControl c = false := by
  simp only [isDigit, decide_eq_true_eq, UInt8.le_iff_toNat_le] at h
  simp only [isControl, decide_eq_false_iff_not, UInt8.le_iff_toNat_le, ← UInt8.toNat_inj]
  change 48 ≤ c.toNat ∧ c.toNat ≤ 57 at h
  change ¬ (c.toNat ≤ 31 ∨ c.toNat = 127)
  omega

namespace HTTPMessage

/-- The fields of the first line. -/
def firstLineFields (m : HTTPMessage) : (Bytes × Bytes × Bytes) ⊕ (ℕ × Bytes) :=
  match m.kind with
  | .request r => .inl (r.method, r.resource, r.queryString)
  | .response r => .inr (r.statusCode, r.statusMessage)

/-- The message that reads the version of `m` and some headers. -/
def addHead (m0 m : HTTPMessage) (es : StringDictionary) : HTTPMessage :=
  { m0 with
    versionMajor := m.versionMajor, versionMinor := m.versionMinor, firstLine := []
    headers := m0.headers ++ es }

/-- The fields of the first line can be read. -/
def LineOk (m : HTTPMessage) : Prop :=
  match m.firstLineFields with
  | .inl (method, resource, queryString) =>
      IsToken method ∧ method.length ≤ methodMax ∧
        (IsResource resource ∧ resource.length ≤ resourceMax) ∧
        IsQuery queryString ∧ queryString.length ≤ queryStringMax
  | .inr (statusCode, statusMessage) =>
      statusCode < uint16Mod ∧ IsText statusMessage ∧ statusMessage.length ≤ statusMessageMax

end HTTPMessage

/-- What the header machine has read, as the fields of a first line. -/
def HeaderMachine.fields (h : HeaderMachine) (isRequest : Bool) :
    (Bytes × Bytes × Bytes) ⊕ (ℕ × Bytes) :=
  if isRequest then .inl (h.method, h.resource, h.queryString)
  else .inr (h.statusCode, h.statusMessage)

/-- The members of the header machine that hold them. -/
def HeaderMachine.lineFields (h : HeaderMachine) : ℕ × Bytes × Bytes × Bytes × Bytes :=
  (h.statusCode, h.statusMessage, h.method, h.resource, h.queryString)

lemma digitVal_lt {c : Byte} (h : isDigit c = true) : digitVal c < uint16Mod := by
  simp only [isDigit, decide_eq_true_eq] at h
  have hle : c.toNat ≤ 57 := h.2
  simp only [digitVal, if_pos h.2, uint16Mod]
  omega

/-! ### Numbers -/

/-- The digits of a number that fits are read back, modulo a word size at every digit. -/
lemma foldl_numeral {n mod : ℕ} (hn : n < mod) {c : Byte} {ds : Bytes}
    (hc : numeral 10 n = c :: ds) :
    ds.foldl (fun acc d => (acc * 10 + digitVal d) % mod) (digitVal c % mod) = n := by
  have hread := readNumeral_numeral (by omega : 1 < 10) (by omega) n
  rw [hc, readNumeral, List.foldl_cons, Nat.zero_mul, Nat.zero_add] at hread
  rw [readNumeral_mod, hread, Nat.mod_eq_of_lt hn]

/-- A number is read that is kept modulo a word size. -/
lemma scan_number {σ ρ : Type*} (step : σ → Byte → Turn σ ρ) (s : σ) (emb : ℕ → σ) {mod n : ℕ}
    (hfirst : ∀ c, isDigit c = true → step s c = .next (emb (digitVal c % mod)))
    (hmore : ∀ t c, isDigit c = true →
      step (emb t) c = .next (emb ((t * 10 + digitVal c) % mod)))
    (hn : n < mod) (rest : Bytes) :
    scan step s (numeral 10 n ++ rest) = scan step (emb n) rest := by
  have hdigit : ∀ c ∈ numeral 10 n, isDigit c = true := fun c hc => isDigit_of_mem_numeral hc
  obtain ⟨c, ds, hc⟩ := List.exists_cons_of_ne_nil (numeral_ne_nil 10 n)
  rw [hc] at hdigit
  rw [hc, List.cons_append, scan_next (hfirst c (hdigit c List.mem_cons_self)),
    scan_fold emb _ hmore (fun d hd => hdigit d (List.mem_cons_of_mem c hd)), foldl_numeral hn hc]

section Machine

variable {isRequest : Bool} {m : HTTPMessage} {code : ℕ}
  {message method resource query raw name value : Bytes}

/-- A version number is read as it is written. -/
lemma scan_version {major minor : ℕ} (hmajor : major < uint16Mod) (hminor : minor < uint16Mod)
    (rest : Bytes) :
    scan (parseHeadersChar isRequest false)
        (⟨.parseHttpVersionH, code, message, method, resource, query, raw, name, value⟩, m)
        (stringHttpVersion ++ (numeral 10 major ++ ([46] ++ (numeral 10 minor ++ rest)))) =
      scan (parseHeadersChar isRequest false)
        (⟨.parseHttpVersionMinor, code, message, method, resource, query, raw, name, value⟩,
          (m.setVersionMajor major).setVersionMinor minor) rest := by
  have hstart : ∀ w : Bytes, scan (parseHeadersChar isRequest false)
      (⟨.parseHttpVersionH, code, message, method, resource, query, raw, name, value⟩, m)
      (stringHttpVersion ++ w) = scan (parseHeadersChar isRequest false)
      (⟨.parseHttpVersionMajorStart, code, message, method, resource, query, raw, name, value⟩, m)
      w := fun _ => rfl
  have hmaj := scan_number (parseHeadersChar isRequest false)
    (⟨.parseHttpVersionMajorStart, code, message, method, resource, query, raw, name, value⟩, m)
    (fun t => (⟨.parseHttpVersionMajor, code, message, method, resource, query, raw, name,
      value⟩, m.setVersionMajor t)) ?_ ?_ hmajor
  have hmin := scan_number (parseHeadersChar isRequest false)
    (⟨.parseHttpVersionMinorStart, code, message, method, resource, query, raw, name, value⟩,
      m.setVersionMajor major)
    (fun t => (⟨.parseHttpVersionMinor, code, message, method, resource, query, raw, name,
      value⟩, (m.setVersionMajor major).setVersionMinor t)) ?_ ?_ hminor
  · rw [hstart, hmaj, List.singleton_append, ← hmin]
    rfl
  · intro c hc
    simp [parseHeadersChar, parseHeadersSwitch, saveRawHeader, hc, HTTPMessage.setVersionMinor]
  · intro t c hc
    obtain ⟨-, h1, h2, h3⟩ := ne_of_digit hc
    simp [parseHeadersChar, parseHeadersSwitch, saveRawHeader, hc, h1, h2, h3,
      HTTPMessage.setVersionMinor, Nat.add_mod, Nat.mul_mod, HTTPMessage.clearFirstLine]
  · intro c hc
    simp [parseHeadersChar, parseHeadersSwitch, saveRawHeader, hc, HTTPMessage.setVersionMajor]
  · intro t c hc
    obtain ⟨h1, -, -, -⟩ := ne_of_digit hc
    simp [parseHeadersChar, parseHeadersSwitch, saveRawHeader, hc, h1,
      HTTPMessage.setVersionMajor, Nat.add_mod, Nat.mul_mod, HTTPMessage.clearFirstLine]

/-! ### First lines -/

lemma scan_method {s : Bytes} (hs : IsToken s) (hmax : s.length ≤ methodMax) (rest : Bytes) :
    scan (parseHeadersChar isRequest false)
        (⟨.parseMethodStart, code, message, method, resource, query, raw, name, value⟩, m)
        (s ++ rest) =
      scan (parseHeadersChar isRequest false)
        (⟨.parseMethod, code, message, s, resource, query, raw, name, value⟩, m) rest := by
  obtain ⟨hne, hs⟩ := hs
  obtain ⟨c, w, rfl⟩ := List.exists_cons_of_ne_nil hne
  have hfirst : parseHeadersChar isRequest false
      (⟨.parseMethodStart, code, message, method, resource, query, raw, name, value⟩, m) c =
        .next (⟨.parseMethod, code, message, [c], resource, query, raw, name, value⟩, m) := by
    have hc := hs c List.mem_cons_self
    obtain ⟨-, h1, h2, h3, -⟩ := ne_of_token hc
    simp [parseHeadersChar, parseHeadersSwitch, saveRawHeader, h1, h2, h3, hc]
  rw [List.cons_append, scan_next hfirst]
  refine scan_collect (parseHeadersChar isRequest false)
    (fun acc => (⟨.parseMethod, code, message, acc, resource, query, raw, name, value⟩, m)) methodMax
    (fun acc d hd hlt => ?_) (fun d hd => hs d (List.mem_cons_of_mem c hd))
    (by rwa [List.length_cons, Nat.add_comm] at hmax) rest
  obtain ⟨-, -, -, h3, -⟩ := ne_of_token hd
  simp [parseHeadersChar, parseHeadersSwitch, saveRawHeader, h3, hd, not_le.2 hlt]

lemma scan_resource {s : Bytes} (hs : IsResource s) (hmax : s.length ≤ resourceMax)
    (rest : Bytes) :
    scan (parseHeadersChar isRequest false)
        (⟨.parseUriStem, code, message, method, [], query, raw, name, value⟩, m) (s ++ rest) =
      scan (parseHeadersChar isRequest false)
        (⟨.parseUriStem, code, message, method, s, query, raw, name, value⟩, m) rest := by
  refine scan_collect (parseHeadersChar isRequest false)
    (fun acc => (⟨.parseUriStem, code, message, method, acc, query, raw, name, value⟩, m))
    resourceMax (fun acc d hd hlt => ?_) hs (by rwa [List.length_nil, Nat.zero_add]) rest
  obtain ⟨h1, h2⟩ := ne_of_text hd.1
  simp [parseHeadersChar, parseHeadersSwitch, saveRawHeader, hd, h1, h2, not_le.2 hlt]

lemma scan_query {s : Bytes} (hs : IsQuery s) (hmax : s.length ≤ queryStringMax) (rest : Bytes) :
    scan (parseHeadersChar isRequest false)
        (⟨.parseUriQuery, code, message, method, resource, [], raw, name, value⟩, m) (s ++ rest) =
      scan (parseHeadersChar isRequest false)
        (⟨.parseUriQuery, code, message, method, resource, s, raw, name, value⟩, m) rest := by
  refine scan_collect (parseHeadersChar isRequest false)
    (fun acc => (⟨.parseUriQuery, code, message, method, resource, acc, raw, name, value⟩, m))
    queryStringMax (fun acc d hd hlt => ?_) hs (by rwa [List.length_nil, Nat.zero_add]) rest
  simp [parseHeadersChar, parseHeadersSwitch, saveRawHeader, hd, not_le.2 hlt]

/-- The end of a resource: a blank, or a query and a blank behind it. -/
lemma scan_queryPart {s : Bytes} (hs : IsQuery s) (hmax : s.length ≤ queryStringMax)
    (rest : Bytes) :
    scan (parseHeadersChar isRequest false)
        (⟨.parseUriStem, code, message, method, resource, [], raw, name, value⟩, m)
        ((if s = [] then [] else [63] ++ s) ++ ([32] ++ rest)) =
      scan (parseHeadersChar isRequest false)
        (⟨.parseHttpVersionH, code, message, method, resource, s, raw, name, value⟩, m) rest := by
  split_ifs with hnil
  · subst hnil
    rfl
  · have hmark : parseHeadersChar isRequest false
        (⟨.parseUriStem, code, message, method, resource, [], raw, name, value⟩, m) 63 =
          .next (⟨.parseUriQuery, code, message, method, resource, [], raw, name, value⟩, m) := rfl
    rw [List.append_assoc, List.singleton_append, scan_next hmark, scan_query hs hmax]
    rfl

/-- The first line of a request is read as its method, resource, query and version. -/
lemma scan_requestLine {r : RequestData} {major minor : ℕ} (hmethod : IsToken r.method)
    (hmethodMax : r.method.length ≤ methodMax) (hresource : IsResource r.resource)
    (hresourceMax : r.resource.length ≤ resourceMax) (hquery : IsQuery r.queryString)
    (hqueryMax : r.queryString.length ≤ queryStringMax) (hmajor : major < uint16Mod)
    (hminor : minor < uint16Mod) (rest : Bytes) :
    scan (parseHeadersChar true false)
        (⟨.parseMethodStart, code, message, [], [], [], raw, name, value⟩, m)
        (r.method ++ ([32] ++ (r.resource ++
          ((if r.queryString = [] then [] else [63] ++ r.queryString) ++ ([32] ++
            (stringHttpVersion ++ (numeral 10 major ++ ([46] ++ (numeral 10 minor ++
              (stringCRLF ++ rest)))))))))) =
      scan (parseHeadersChar true false)
        (⟨.parseHeaderStart, code, message, r.method, r.resource, r.queryString, raw, name, value⟩,
          (m.setVersionMajor major).setVersionMinor minor) rest := by
  have hblank : ∀ (method : Bytes) (w : Bytes), scan (parseHeadersChar true false)
      (⟨.parseMethod, code, message, method, [], [], raw, name, value⟩, m) ([32] ++ w) =
      scan (parseHeadersChar true false)
      (⟨.parseUriStem, code, message, method, [], [], raw, name, value⟩, m) w := fun _ _ => rfl
  rw [scan_method hmethod hmethodMax, hblank, scan_resource hresource hresourceMax,
    scan_queryPart hquery hqueryMax, scan_version hmajor hminor]
  rfl

/-- The first line of a response is read as its version, status code and status message. -/
lemma scan_statusLine {r : ResponseData} {major minor : ℕ} (hcode : r.statusCode < uint16Mod)
    (hmessage : IsText r.statusMessage) (hmessageMax : r.statusMessage.length ≤ statusMessageMax)
    (hmajor : major < uint16Mod) (hminor : minor < uint16Mod) (rest : Bytes) :
    scan (parseHeadersChar false false)
        (⟨.parseHttpVersionH, 0, [], method, resource, query, raw, name, value⟩, m)
        (stringHttpVersion ++ (numeral 10 major ++ ([46] ++ (numeral 10 minor ++ ([32] ++
          (numeral 10 r.statusCode ++ ([32] ++ (r.statusMessage ++ (stringCRLF ++ rest))))))))) =
      scan (parseHeadersChar false false)
        (⟨.parseHeaderStart, r.statusCode, r.statusMessage, method, resource, query, raw, name,
          value⟩, (m.setVersionMajor major).setVersionMinor minor) rest := by
  rw [scan_version hmajor hminor]
  generalize (m.setVersionMajor major).setVersionMinor minor = m'
  have hblank : ∀ w : Bytes, scan (parseHeadersChar false false)
      (⟨.parseHttpVersionMinor, 0, [], method, resource, query, raw, name, value⟩, m')
      ([32] ++ w) = scan (parseHeadersChar false false)
      (⟨.parseStatusCodeStart, 0, [], method, resource, query, raw, name, value⟩, m') w :=
    fun _ => rfl
  have hnumber := scan_number (parseHeadersChar false false)
    (⟨.parseStatusCodeStart, 0, [], method, resource, query, raw, name, value⟩, m')
    (fun t => (⟨.parseStatusCode, t, [], method, resource, query, raw, name, value⟩, m'))
    ?_ ?_ hcode
  have hblank' : ∀ w : Bytes, scan (parseHeadersChar false false)
      (⟨.parseStatusCode, r.statusCode, [], method, resource, query, raw, name, value⟩, m')
      ([32] ++ w) = scan (parseHeadersChar false false)
      (⟨.parseStatusMessage, r.statusCode, [], method, resource, query, raw, name, value⟩, m') w :=
    fun _ => rfl
  have htext := scan_collect (parseHeadersChar false false)
    (fun acc => (⟨.parseStatusMessage, r.statusCode, acc, method, resource, query, raw, name,
      value⟩, m')) statusMessageMax ?_ hmessage (by rwa [List.length_nil, Nat.zero_add] :
    ([] : Bytes).length + r.statusMessage.length ≤ statusMessageMax)
  · rw [hblank, hnumber, hblank', htext]
    rfl
  · intro acc d hd hlt
    obtain ⟨h1, h2⟩ := ne_of_text hd
    simp [parseHeadersChar, parseHeadersSwitch, saveRawHeader, hd, h1, h2, not_le.2 hlt]
  · intro c hc
    simp [parseHeadersChar, parseHeadersSwitch, saveRawHeader, hc, Nat.mod_eq_of_lt (digitVal_lt hc)]
  · intro t c hc
    obtain ⟨-, h1, -, -⟩ := ne_of_digit hc
    simp [parseHeadersChar, parseHeadersSwitch, saveRawHeader, hc, h1]

/-! ### Headers -/

lemma scan_headerName {s : Bytes} (hs : IsToken s) (hmax : s.length ≤ headerNameMax)
    (rest : Bytes) :
    scan (parseHeadersChar isRequest false)
        (⟨.parseHeaderStart, code, message, method, resource, query, raw, name, value⟩, m)
        (s ++ rest) =
      scan (parseHeadersChar isRequest false)
        (⟨.parseHeaderName, code, message, method, resource, query, raw, s, value⟩, m) rest := by
  obtain ⟨hne, hs⟩ := hs
  obtain ⟨c, w, rfl⟩ := List.exists_cons_of_ne_nil hne
  have hfirst : parseHeadersChar isRequest false
      (⟨.parseHeaderStart, code, message, method, resource, query, raw, name, value⟩, m) c =
        .next (⟨.parseHeaderName, code, message, method, resource, query, raw, [c], value⟩, m) := by
    have hc := hs c List.mem_cons_self
    obtain ⟨h1, h2, h3, h4, -⟩ := ne_of_token hc
    simp [parseHeadersChar, parseHeadersSwitch, parseHeaderNameStart, saveRawHeader, h1, h2, h3,
      h4, hc]
  rw [List.cons_append, scan_next hfirst]
  refine scan_collect (parseHeadersChar isRequest false)
    (fun acc => (⟨.parseHeaderName, code, message, method, resource, query, raw, acc, value⟩, m))
    headerNameMax (fun acc d hd hlt => ?_) (fun d hd => hs d (List.mem_cons_of_mem c hd))
    (by rwa [List.length_cons, Nat.add_comm] at hmax) rest
  obtain ⟨-, -, -, -, h5⟩ := ne_of_token hd
  simp [parseHeadersChar, parseHeadersSwitch, saveRawHeader, h5, hd, not_le.2 hlt]

lemma scan_headerValue {s : Bytes} (hs : IsText s) (hmax : s.length ≤ headerValueMax)
    (rest : Bytes) :
    scan (parseHeadersChar isRequest false)
        (⟨.parseHeaderValue, code, message, method, resource, query, raw, name, []⟩, m)
        (s ++ rest) =
      scan (parseHeadersChar isRequest false)
        (⟨.parseHeaderValue, code, message, method, resource, query, raw, name, s⟩, m) rest := by
  refine scan_collect (parseHeadersChar isRequest false)
    (fun acc => (⟨.parseHeaderValue, code, message, method, resource, query, raw, name, acc⟩, m))
    headerValueMax (fun acc d hd hlt => ?_) hs (by rwa [List.length_nil, Nat.zero_add]) rest
  obtain ⟨h1, h2⟩ := ne_of_text hd
  simp [parseHeadersChar, parseHeadersSwitch, saveRawHeader, hd, h1, h2, not_le.2 hlt]

/-- A header that is written is added to the message. -/
lemma scan_headerLine {e : Bytes × Bytes} (he : HeaderOk e) (rest : Bytes) :
    scan (parseHeadersChar isRequest false)
        (⟨.parseHeaderStart, code, message, method, resource, query, raw, name, value⟩, m)
        (HTTPMessage.headerLine e ++ rest) =
      scan (parseHeadersChar isRequest false)
        (⟨.parseHeaderStart, code, message, method, resource, query, raw, e.1, e.2⟩,
          m.addHeader e.1 e.2) rest := by
  have hcolon : ∀ (name w : Bytes), scan (parseHeadersChar isRequest false)
      (⟨.parseHeaderName, code, message, method, resource, query, raw, name, value⟩, m)
      (headerNameValueDelimiter ++ w) = scan (parseHeadersChar isRequest false)
      (⟨.parseHeaderValue, code, message, method, resource, query, raw, name, []⟩, m) w :=
    fun _ _ => rfl
  rw [HTTPMessage.headerLine, List.append_assoc, List.append_assoc, List.append_assoc,
    scan_headerName he.name he.nameMax, hcolon, scan_headerValue he.value he.valueMax]
  rfl

/-- The headers are added in the order in which they are written, and the empty line behind
them ends the header. -/
lemma scan_headerBlock {h : HeaderMachine} (hst : h.headersParseState = .parseHeaderStart)
    {es : List (Bytes × Bytes)} (hes : ∀ e ∈ es, HeaderOk e) (rest : Bytes) :
    ∃ h' : HeaderMachine, h'.lineFields = h.lineFields ∧
      scan (parseHeadersChar isRequest false) (h, m)
          (es.flatMap HTTPMessage.headerLine ++ (stringCRLF ++ rest)) =
        ⟨some .done, rest, (h', { m with headers := m.headers ++ es })⟩ := by
  induction es generalizing h m with
  | nil =>
    obtain ⟨st, code, message, method, resource, query, raw, name, value⟩ := h
    obtain rfl : st = .parseHeaderStart := hst
    refine ⟨⟨.parseExpectingFinalNewline, code, message, method, resource, query, raw, name,
      value⟩, rfl, ?_⟩
    rw [List.append_nil]
    rfl
  | cons e es ih =>
    obtain ⟨st, code, message, method, resource, query, raw, name, value⟩ := h
    obtain rfl : st = .parseHeaderStart := hst
    obtain ⟨h', hline, hscan⟩ := ih (m := m.addHeader e.1 e.2)
      (h := ⟨.parseHeaderStart, code, message, method, resource, query, raw, e.1, e.2⟩) rfl
      (fun f hf => hes f (List.mem_cons_of_mem e hf))
    refine ⟨h', hline, ?_⟩
    rw [List.flatMap_cons, List.append_assoc, scan_headerLine (hes e List.mem_cons_self), hscan]
    simp [HTTPMessage.addHeader, StringDictionary.insert, Multimap.insert]

end Machine

/-! ### Whole headers -/

/-- The first line of a message is read as its fields and its version. -/
lemma scan_firstLine {m m0 : HTTPMessage} (hline : m.LineOk) (hmajor : m.versionMajor < uint16Mod)
    (hminor : m.versionMinor < uint16Mod) (rest : Bytes) :
    ∃ h : HeaderMachine, h.headersParseState = .parseHeaderStart ∧
      h.fields m.isRequest = m.firstLineFields ∧
      scan (parseHeadersChar m.isRequest false)
          ({ headersParseState := initialHeadersState m.isRequest }, m0)
          (m.updateFirstLine ++ (stringCRLF ++ rest)) =
        scan (parseHeadersChar m.isRequest false)
          (h, (m0.setVersionMajor m.versionMajor).setVersionMinor m.versionMinor) rest := by
  rw [HTTPMessage.LineOk] at hline
  cases hm : m.kind with
  | request r =>
    rw [HTTPMessage.firstLineFields, hm] at hline
    obtain ⟨hmethod, hmethodMax, ⟨hresource, hresourceMax⟩, hquery, hqueryMax⟩ := hline
    have hrequest : m.isRequest = true := by simp [HTTPMessage.isRequest, hm]
    refine ⟨⟨.parseHeaderStart, 0, [], r.method, r.resource, r.queryString, [], [], []⟩, rfl, ?_,
      ?_⟩
    · simp [HeaderMachine.fields, HTTPMessage.firstLineFields, hm, hrequest]
    · rw [hrequest]
      refine Eq.trans ?_ (scan_requestLine hmethod hmethodMax hresource hresourceMax hquery
        hqueryMax hmajor hminor rest)
      simp only [HTTPMessage.updateFirstLine, hm, HTTPMessage.getVersionString, List.append_assoc]
      rfl
  | response r =>
    rw [HTTPMessage.firstLineFields, hm] at hline
    obtain ⟨hcode, hmessage, hmessageMax⟩ := hline
    have hrequest : m.isRequest = false := by simp [HTTPMessage.isRequest, hm]
    refine ⟨⟨.parseHeaderStart, r.statusCode, r.statusMessage, [], [], [], [], [], []⟩, rfl, ?_, ?_⟩
    · simp [HeaderMachine.fields, HTTPMessage.firstLineFields, hm, hrequest]
    · rw [hrequest]
      refine Eq.trans ?_ (scan_statusLine hcode hmessage hmessageMax hmajor hminor rest)
      simp only [HTTPMessage.updateFirstLine, hm, HTTPMessage.getVersionString, List.append_assoc]
      rfl

/-- A header that is written is read to its end, and gives the fields of the first line, the
version and the headers. -/
theorem scan_header {m : HTTPMessage} (m0 : HTTPMessage) (hline : m.LineOk)
    (hmajor : m.versionMajor < uint16Mod) (hminor : m.versionMinor < uint16Mod)
    {es : StringDictionary} (hes : ∀ e ∈ es, HeaderOk e) (rest : Bytes) :
    ∃ h : HeaderMachine, h.fields m.isRequest = m.firstLineFields ∧
      scan (parseHeadersChar m.isRequest false)
          ({ headersParseState := initialHeadersState m.isRequest }, m0)
          (m.updateFirstLine ++ (stringCRLF ++ (es.flatMap HTTPMessage.headerLine ++
            (stringCRLF ++ rest)))) =
        ⟨some .done, rest, (h, m0.addHead m es)⟩ := by
  obtain ⟨h, hst, hfields, hscan⟩ := @scan_firstLine m m0 hline hmajor hminor
    (es.flatMap HTTPMessage.headerLine ++ (stringCRLF ++ rest))
  obtain ⟨h', hsame, hscan'⟩ := @scan_headerBlock m.isRequest
    ((m0.setVersionMajor m.versionMajor).setVersionMinor m.versionMinor) h hst es hes rest
  refine ⟨h', ?_, ?_⟩
  · rw [← hfields]
    simp only [HeaderMachine.lineFields, Prod.mk.injEq] at hsame
    simp only [HeaderMachine.fields, hsame]
  · rw [hscan, hscan']
    simp only [HTTPMessage.setVersionMajor, HTTPMessage.setVersionMinor, HTTPMessage.clearFirstLine,
      HTTPMessage.addHead, Nat.mod_eq_of_lt hmajor, Nat.mod_eq_of_lt hminor]

end PionCore.Net
