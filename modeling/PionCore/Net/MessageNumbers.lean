/-
# The numbers of a message

The version numbers and the status code are added up digit by digit in 16 bits, and the size of a
chunk is read by `strtol`, which stops at the largest `long`.  So they are what the digits say
exactly if their values fit; a larger value is not refused.
-/
import PionCore.Net.Versionless

namespace PionCore.Net

open PionCore.Lib

/-! ### Digit strings -/

/-- The strings of digits in a text. -/
def digitStrings (w : Bytes) : List Bytes :=
  (w.splitOnP fun c => ! isDigit c).filter (· ≠ [])

lemma digitStrings_cons {c : Byte} (hc : isDigit c = false) (w : Bytes) :
    digitStrings (c :: w) = digitStrings w := by
  rw [digitStrings, List.splitOnP_cons_eq_if_modifyHead, if_pos (by rw [hc]; rfl),
    List.filter_cons_of_neg (by simp)]
  rfl

/-- A string of digits with a byte behind it that is none. -/
lemma digitStrings_append {ds : Bytes} (hne : ds ≠ []) (hds : ∀ d ∈ ds, isDigit d = true) {c : Byte}
    (hc : isDigit c = false) (w : Bytes) :
    digitStrings (ds ++ c :: w) = ds :: digitStrings w := by
  rw [digitStrings, List.splitOnP_append_cons_of_forall_mem (fun d hd => by simp [hds d hd]) c
    (by rw [hc]; rfl),
    List.filter_cons_of_pos (by simpa using hne)]
  rfl

lemma digitStrings_self {ds : Bytes} (hne : ds ≠ []) (hds : ∀ d ∈ ds, isDigit d = true) :
    digitStrings ds = [ds] := by
  rw [digitStrings, List.splitOnP_eq_singleton fun d hd => by simp [hds d hd],
    List.filter_cons_of_pos (by simpa using hne), List.filter_nil]

lemma flatten_digitStrings (w : Bytes) : (digitStrings w).flatten = w.filter isDigit := by
  have hnil : ∀ l : List Bytes, (l.filter (· ≠ [])).flatten = l.flatten := by
    intro l
    induction l with
    | nil => rfl
    | cons a l ih =>
      by_cases ha : a = []
      · rw [List.filter_cons_of_neg (by simpa using ha), ih, ha]
        rfl
      · rw [List.filter_cons_of_pos (by simpa using ha), List.flatten_cons, List.flatten_cons, ih]
  rw [digitStrings, hnil]
  induction w with
  | nil => rfl
  | cons c w ih =>
    rw [List.splitOnP_cons_eq_if_modifyHead]
    cases hc : isDigit c with
    | false => simp [hc, ih]
    | true =>
      obtain ⟨a, l, hl⟩ := List.exists_cons_of_ne_nil
        (List.splitOnP_ne_nil (fun c => ! isDigit c) w)
      rw [hl] at ih
      simp [hc, hl, ← ih]

/-! ### The first line -/

/-- The text of the first line behind `HTTP/`, if it has a version. -/
def versionText (isRequest : Bool) (w : Bytes) : Option Bytes :=
  let line (v : Bytes) : Bytes := v.takeWhile fun c => c ≠ 13 ∧ c ≠ 10
  if isRequest then
    -- behind the blanks, the method and the resource
    match (((w.dropWhile fun c => c = 32 ∨ c = 13 ∨ c = 10).dropWhile (· ≠ 32)).drop 1).dropWhile
        fun c => c ≠ 32 ∧ c ≠ 13 ∧ c ≠ 10 with
    | 32 :: v => some (line (v.drop 5))
    | _ => none
  else some (line (w.drop 5))

/-- The digit strings of the first line that are numbers: the text of a status may have more. -/
def lineNumbers (isRequest : Bool) (line : Bytes) : List Bytes :=
  if isRequest then digitStrings line else (digitStrings line).take 3

/-- How many numbers the first line has. -/
def numberCount (isRequest : Bool) : ℕ := if isRequest then 2 else 3

/-- The numbers of the first line, as they are stored. -/
def storedNumbers (isRequest : Bool) (h : HeaderMachine) (m : HTTPMessage) : List ℕ :=
  if isRequest then [m.versionMajor, m.versionMinor]
  else [m.versionMajor, m.versionMinor, h.statusCode]

/-- The digits that a loop adds up, a word size at a time, before it comes to a good result. -/
lemma scan_number_done {σ ρ : Type*} {step : σ → Byte → Turn σ ρ} {s0 : σ} (emb : ℕ → σ) (mod : ℕ)
    {r : ρ}
    (hfirst : ∀ c, match step s0 c with
      | .next s => isDigit c = true ∧ s = emb (digitVal c % mod)
      | .stop _ r' _ => r' ≠ r)
    (hmore : ∀ t c, match step (emb t) c with
      | .next s => isDigit c = true → s = emb ((t * 10 + digitVal c) % mod)
      | .stop _ r' _ => r' ≠ r)
    {w : Bytes} (hw : (scan step s0 w).result = some r) :
    ∃ ds c v s, w = ds ++ c :: v ∧ ds ≠ [] ∧ (∀ d ∈ ds, isDigit d = true) ∧ ¬ isDigit c = true ∧
      step (emb (readNumeral 10 ds % mod)) c = .next s ∧ scan step s0 w = scan step s v := by
  cases w with
  | nil => cases hw
  | cons d w =>
    have hd := hfirst d
    cases hstep : step s0 d with
    | next s =>
      rw [hstep] at hd
      obtain ⟨hdigit, rfl⟩ := hd
      rw [scan_next hstep] at hw ⊢
      obtain ⟨ds, c, v, s, rfl, hds, hc, hs, hscan⟩ := scan_leaves step emb _ _ hmore hw
      rw [readNumeral_mod] at hs
      refine ⟨d :: ds, c, v, s, rfl, by simp, List.forall_mem_cons.2 ⟨hdigit, hds⟩, hc, ?_, hscan⟩
      rwa [readNumeral, List.foldl_cons, Nat.zero_mul, Nat.zero_add]
    | stop b r' s =>
      rw [hstep] at hd
      cases b with
      | true =>
        rw [scan_stop hstep] at hw
        exact absurd (Option.some.inj hw) hd
      | false =>
        rw [scan_halt hstep] at hw
        exact absurd (Option.some.inj hw) hd

namespace HTTPMessage

lemma setVersionMajor_mod (m : HTTPMessage) (n : ℕ) :
    m.setVersionMajor (n % uint16Mod) = m.setVersionMajor n := by
  rw [setVersionMajor, setVersionMajor, Nat.mod_mod]

lemma setVersionMinor_mod (m : HTTPMessage) (n : ℕ) :
    m.setVersionMinor (n % uint16Mod) = m.setVersionMinor n := by
  rw [setVersionMinor, setVersionMinor, Nat.mod_mod]

lemma add_digit_mod (t d : ℕ) : (t % uint16Mod * 10 + d) % uint16Mod = (t * 10 + d) % uint16Mod := by
  rw [uint16Mod]
  omega

/-- A digit more of a version number. -/
lemma setVersionMajor_digit (m : HTTPMessage) (t d : ℕ) :
    (m.setVersionMajor t).setVersionMajor ((m.setVersionMajor t).versionMajor * 10 + d) =
      m.setVersionMajor ((t * 10 + d) % uint16Mod) := by
  have hstored : (m.setVersionMajor t).versionMajor = t % uint16Mod := rfl
  rw [hstored, ← setVersionMajor_mod (m.setVersionMajor t), add_digit_mod]
  rfl

lemma setVersionMinor_digit (m : HTTPMessage) (t d : ℕ) :
    (m.setVersionMinor t).setVersionMinor ((m.setVersionMinor t).versionMinor * 10 + d) =
      m.setVersionMinor ((t * 10 + d) % uint16Mod) := by
  have hstored : (m.setVersionMinor t).versionMinor = t % uint16Mod := rfl
  rw [hstored, ← setVersionMinor_mod (m.setVersionMinor t), add_digit_mod]
  rfl

end HTTPMessage

section Machine

variable {isRequest : Bool} {m : HTTPMessage} {code : ℕ}
  {message method resource query name value w : Bytes}

/-- The major version number. -/
lemma scan_major (h : (scan (parseHeadersChar isRequest false)
      (⟨.parseHttpVersionMajorStart, code, message, method, resource, query, [], name, value⟩, m)
      w).result = some .done) :
    ∃ ds v, w = ds ++ 46 :: v ∧ ds ≠ [] ∧ (∀ d ∈ ds, isDigit d = true) ∧
      scan (parseHeadersChar isRequest false)
        (⟨.parseHttpVersionMajorStart, code, message, method, resource, query, [], name, value⟩, m)
        w = scan (parseHeadersChar isRequest false)
        (⟨.parseHttpVersionMinorStart, code, message, method, resource, query, [], name, value⟩,
          m.setVersionMajor (readNumeral 10 ds)) v := by
  obtain ⟨ds, c, v, s, rfl, hne, hds, hc, hs, hscan⟩ := scan_number_done
    (fun t => (⟨.parseHttpVersionMajor, code, message, method, resource, query, [], name,
      value⟩, m.setVersionMajor t)) uint16Mod (fun c => by
        simp only [parseHeadersChar, parseHeadersSwitch, saveRawHeader, Bool.false_eq_true, if_false]
        cases hc : isDigit c with
        | true => exact ⟨rfl, by rw [HTTPMessage.setVersionMajor_mod]⟩
        | false => exact fun h => (by cases h)) (fun t c => by
        simp only [parseHeadersChar, parseHeadersSwitch, saveRawHeader, Bool.false_eq_true, if_false]
        split_ifs with h46 hc
        · exact fun hdot => absurd hdot (by rw [h46]; decide)
        · exact fun _ => by rw [HTTPMessage.setVersionMajor_digit]
        · exact fun h => (by cases h)) h
  simp only [parseHeadersChar, parseHeadersSwitch, saveRawHeader, Bool.false_eq_true, if_false,
    HTTPMessage.setVersionMajor_mod] at hs
  split_ifs at hs with h46
  cases hs
  exact ⟨ds, v, by rw [h46], hne, hds, hscan⟩

/-- The minor version number of a response. -/
lemma scan_minor_response (h : (scan (parseHeadersChar false false)
      (⟨.parseHttpVersionMinorStart, code, message, method, resource, query, [], name, value⟩, m)
      w).result = some .done) :
    ∃ ds v, w = ds ++ 32 :: v ∧ ds ≠ [] ∧ (∀ d ∈ ds, isDigit d = true) ∧
      scan (parseHeadersChar false false)
        (⟨.parseHttpVersionMinorStart, code, message, method, resource, query, [], name, value⟩, m)
        w = scan (parseHeadersChar false false)
        (⟨.parseStatusCodeStart, code, message, method, resource, query, [], name, value⟩,
          m.setVersionMinor (readNumeral 10 ds)) v := by
  obtain ⟨ds, c, v, s, rfl, hne, hds, hc, hs, hscan⟩ := scan_number_done
    (fun t => (⟨.parseHttpVersionMinor, code, message, method, resource, query, [], name,
      value⟩, m.setVersionMinor t)) uint16Mod (fun c => by
        simp only [parseHeadersChar, parseHeadersSwitch, saveRawHeader, Bool.false_eq_true, if_false]
        cases hc : isDigit c with
        | true => exact ⟨rfl, by rw [HTTPMessage.setVersionMinor_mod]⟩
        | false => exact fun h => (by cases h)) (fun t c => by
        simp only [parseHeadersChar, parseHeadersSwitch, saveRawHeader, Bool.false_eq_true, if_false,
          Bool.not_false, if_true]
        split_ifs with h32 h13 h10 hc
        · exact fun hblank => absurd hblank (by rw [h32]; decide)
        · exact fun h => (by cases h)
        · exact fun h => (by cases h)
        · exact fun _ => by rw [HTTPMessage.setVersionMinor_digit]
        · exact fun h => (by cases h)) h
  simp only [parseHeadersChar, parseHeadersSwitch, saveRawHeader, Bool.false_eq_true, if_false,
    Bool.not_false, if_true, HTTPMessage.setVersionMinor_mod] at hs
  split_ifs at hs with h32
  cases hs
  exact ⟨ds, v, by rw [h32], hne, hds, hscan⟩

/-- The status code of a response. -/
lemma scan_status (h : (scan (parseHeadersChar false false)
      (⟨.parseStatusCodeStart, code, message, method, resource, query, [], name, value⟩, m)
      w).result = some .done) :
    ∃ ds c v s, w = ds ++ c :: v ∧ ds ≠ [] ∧ (∀ d ∈ ds, isDigit d = true) ∧
      (c = 32 ∨ c = 13 ∨ c = 10) ∧ s.1.headersParseState.behindFirstLine = true ∧
      firstLineData s = ((readNumeral 10 ds % uint16Mod, method, resource, query), m.kind,
        m.versionMajor, m.versionMinor) ∧
      scan (parseHeadersChar false false)
        (⟨.parseStatusCodeStart, code, message, method, resource, query, [], name, value⟩, m) w =
        scan (parseHeadersChar false false) s v := by
  obtain ⟨ds, c, v, s, rfl, hne, hds, hc, hs, hscan⟩ := scan_number_done
    (fun t => (⟨.parseStatusCode, t, message, method, resource, query, [], name, value⟩, m))
    uint16Mod (fun c => by
        simp only [parseHeadersChar, parseHeadersSwitch, saveRawHeader, Bool.false_eq_true, if_false]
        cases hc : isDigit c with
        | true => exact ⟨rfl, by rw [Nat.mod_eq_of_lt (digitVal_lt hc)]⟩
        | false => exact fun h => (by cases h)) (fun t c => by
        simp only [parseHeadersChar, parseHeadersSwitch, saveRawHeader, Bool.false_eq_true, if_false]
        split_ifs with h32 hc h13 h10
        · exact fun hblank => absurd hblank (by rw [h32]; decide)
        · exact fun _ => rfl
        · exact fun hdigit => absurd hdigit hc
        · exact fun hdigit => absurd hdigit hc
        · exact fun h => (by cases h)) h
  simp only [parseHeadersChar, parseHeadersSwitch, saveRawHeader, Bool.false_eq_true, if_false,
    if_neg hc] at hs
  split_ifs at hs with h32 h13 h10
  · cases hs
    exact ⟨ds, c, v, _, rfl, hne, hds, .inl h32, rfl, rfl, hscan⟩
  · cases hs
    exact ⟨ds, c, v, _, rfl, hne, hds, .inr (.inl h13), rfl, rfl, hscan⟩
  · cases hs
    exact ⟨ds, c, v, _, rfl, hne, hds, .inr (.inr h10), rfl, rfl, hscan⟩

/-- The minor version number of a request: blanks are skipped, also between digits. -/
lemma scan_minor_request (h : (scan (parseHeadersChar true false)
      (⟨.parseHttpVersionMinorStart, code, message, method, resource, query, [], name, value⟩, m)
      w).result = some .done) :
    ∃ d u c v s, w = d :: (u ++ c :: v) ∧ isDigit d = true ∧
      (∀ d ∈ u, isDigit d = true ∨ d = 32) ∧ (c = 13 ∨ c = 10) ∧
      s.1.headersParseState.behindFirstLine = true ∧
      firstLineData s = ((code, method, resource, query), m.kind, m.versionMajor,
        readNumeral 10 (d :: u.filter isDigit) % uint16Mod) ∧
      scan (parseHeadersChar true false)
        (⟨.parseHttpVersionMinorStart, code, message, method, resource, query, [], name, value⟩, m)
        w = scan (parseHeadersChar true false) s v := by
  cases w with
  | nil => cases h
  | cons d w =>
    cases hd : isDigit d with
    | false =>
      have hstop : parseHeadersChar true false (⟨.parseHttpVersionMinorStart, code, message, method,
          resource, query, [], name, value⟩, m) d = .stop false (.failed (some .versionChar))
          (⟨.parseHttpVersionMinorStart, code, message, method, resource, query, [], name, value⟩,
            m) := by
        simp [parseHeadersChar, parseHeadersSwitch, saveRawHeader, hd]
      rw [scan_halt hstop] at h
      cases h
    | true =>
      have hnext : parseHeadersChar true false (⟨.parseHttpVersionMinorStart, code, message, method,
          resource, query, [], name, value⟩, m) d = .next (⟨.parseHttpVersionMinor, code, message,
            method, resource, query, [], name, value⟩, m.setVersionMinor (digitVal d % uint16Mod)) := by
        rw [HTTPMessage.setVersionMinor_mod]
        simp [parseHeadersChar, parseHeadersSwitch, saveRawHeader, hd]
      rw [scan_next hnext] at h ⊢
      obtain ⟨u, c, v, s, rfl, hu, hc, hs, hscan⟩ := scan_leaves (parseHeadersChar true false)
        (fun t => (⟨.parseHttpVersionMinor, code, message, method, resource, query, [], name,
          value⟩, m.setVersionMinor t))
        (fun t c => if isDigit c then (t * 10 + digitVal c) % uint16Mod else t)
        (fun c => isDigit c = true ∨ c = 32) (fun t c => by
          simp only [parseHeadersChar, parseHeadersSwitch, saveRawHeader, Bool.false_eq_true,
            if_false, Bool.not_true]
          by_cases h32 : c = 32
          · subst h32
            exact fun _ => rfl
          rw [if_neg h32]
          by_cases h13 : c = 13
          · subst h13
            exact fun h => absurd h (by decide)
          rw [if_neg h13]
          by_cases h10 : c = 10
          · subst h10
            exact fun h => absurd h (by decide)
          rw [if_neg h10]
          cases hc : isDigit c with
          | true =>
            exact fun _ => by simp only [if_true, HTTPMessage.setVersionMinor_digit]
          | false => exact fun h => (by cases h)) h
      have hvalue : u.foldl (fun t c => if isDigit c then (t * 10 + digitVal c) % uint16Mod else t)
          (digitVal d % uint16Mod) = readNumeral 10 (d :: u.filter isDigit) % uint16Mod := by
        rw [← List.foldl_filter, readNumeral_mod, readNumeral, List.foldl_cons, Nat.zero_mul,
          Nat.zero_add]
      obtain ⟨hdigit, h32⟩ := not_or.1 hc
      rw [hvalue] at hs
      simp only [parseHeadersChar, parseHeadersSwitch, saveRawHeader, Bool.false_eq_true, if_false,
        Bool.not_true, if_neg h32, if_neg hdigit] at hs
      split_ifs at hs with h13 h10
      · cases hs
        refine ⟨d, u, c, v, _, rfl, hd, hu, .inl h13, rfl, ?_, hscan⟩
        rw [HTTPMessage.setVersionMinor_mod]
        rfl
      · cases hs
        refine ⟨d, u, c, v, _, rfl, hd, hu, .inr h10, rfl, ?_, hscan⟩
        rw [HTTPMessage.setVersionMinor_mod]
        rfl

/-- The resource of a request, and the query. -/
lemma scan_uri (h : (scan (parseHeadersChar true false)
      (⟨.parseUriStem, code, message, method, resource, query, [], name, value⟩, m)
      w).result = some .done) :
    ∃ uri c v, w = uri ++ c :: v ∧ (∀ d ∈ uri, d ≠ 32 ∧ d ≠ 13 ∧ d ≠ 10) ∧
      (c = 13 ∨ c = 10 ∨ c = 32 ∧ ∃ resource' query', scan (parseHeadersChar true false)
          (⟨.parseUriStem, code, message, method, resource, query, [], name, value⟩, m) w =
        scan (parseHeadersChar true false)
          (⟨.parseHttpVersionH, code, message, method, resource', query', [], name, value⟩, m)
          v) := by
  obtain ⟨u, c, v, s, rfl, hu, hc, hs, hscan⟩ := scan_leaves (parseHeadersChar true false)
    (fun acc => (⟨.parseUriStem, code, message, method, acc, query, [], name, value⟩, m))
    (fun acc c => acc ++ [c]) (fun c => c ≠ 32 ∧ c ≠ 13 ∧ c ≠ 10 ∧ c ≠ 63) (fun acc c => by
      simp only [parseHeadersChar, parseHeadersSwitch, saveRawHeader, Bool.false_eq_true, if_false]
      split_ifs with h32 h63 h13 h10
      · exact fun h => absurd h32 h.1
      · exact fun h => absurd h63 h.2.2.2
      · exact fun h => absurd h13 h.2.1
      · exact fun h => absurd h10 h.2.2.1
      · exact fun h => (by cases h)
      · exact fun h => (by cases h)
      · exact fun _ => rfl) h
  have huri : ∀ d ∈ u, d ≠ 32 ∧ d ≠ 13 ∧ d ≠ 10 := fun d hd =>
    ⟨(hu d hd).1, (hu d hd).2.1, (hu d hd).2.2.1⟩
  by_cases h32 : c = 32
  · subst h32
    cases hs
    exact ⟨u, 32, v, rfl, huri, .inr (.inr ⟨rfl, _, _, hscan⟩)⟩
  by_cases h13 : c = 13
  · exact ⟨u, c, v, rfl, huri, .inl h13⟩
  by_cases h10 : c = 10
  · exact ⟨u, c, v, rfl, huri, .inr (.inl h10)⟩
  -- the query goes on to a blank
  have h63 : c = 63 := by
    by_contra h63
    exact hc ⟨h32, h13, h10, h63⟩
  subst h63
  cases hs
  rw [hscan] at h
  obtain ⟨q, d, v, s, rfl, hq, hd, hs, hscan'⟩ := scan_leaves (parseHeadersChar true false)
    (fun acc => (⟨.parseUriQuery, code, message, method, u.foldl (fun acc c => acc ++ [c]) resource,
      acc, [], name, value⟩, m))
    (fun acc c => acc ++ [c]) (fun c => c ≠ 32 ∧ c ≠ 13 ∧ c ≠ 10) (fun acc c => by
      simp only [parseHeadersChar, parseHeadersSwitch, saveRawHeader, Bool.false_eq_true, if_false]
      split_ifs with h32
      · exact fun h => absurd h32 h.1
      · exact fun h => (by cases h)
      · exact fun h => (by cases h)
      · exact fun _ => rfl) h
  have hline : d = 32 := by
    by_contra h32
    have hcontrol : d = 13 ∨ d = 10 := by
      by_contra hno
      exact hd ⟨h32, not_or.1 hno⟩
    rcases hcontrol with rfl | rfl <;> cases hs
  subst hline
  cases hs
  refine ⟨u ++ 63 :: q, 32, v, by simp, ?_, .inr (.inr ⟨rfl, _, _, hscan.trans hscan'⟩)⟩
  exact List.forall_mem_append.2 ⟨huri, List.forall_mem_cons.2 ⟨by decide, hq⟩⟩

/-- The words in front of the version of a request: the line ends behind the resource, or a blank
follows. -/
lemma scan_words (h : (scan (parseHeadersChar true false)
      (⟨.parseMethodStart, code, message, method, resource, query, [], name, value⟩, m)
      w).result = some .done) :
    ∃ skip d word uri c v, w = skip ++ (d :: word ++ 32 :: (uri ++ c :: v)) ∧
      (∀ d ∈ skip, d = 32 ∨ d = 13 ∨ d = 10) ∧ ¬ (d = 32 ∨ d = 13 ∨ d = 10) ∧
      (∀ d ∈ word, d ≠ 32) ∧ (∀ d ∈ uri, d ≠ 32 ∧ d ≠ 13 ∧ d ≠ 10) ∧
      (c = 13 ∨ c = 10 ∨ c = 32 ∧ ∃ method' resource' query',
        scan (parseHeadersChar true false)
          (⟨.parseMethodStart, code, message, method, resource, query, [], name, value⟩, m) w =
        scan (parseHeadersChar true false)
          (⟨.parseHttpVersionH, code, message, method', resource', query', [], name, value⟩, m)
          v) := by
  obtain ⟨skip, d, w, s, rfl, hskip, hd, hs, hscan⟩ := scan_leaves (parseHeadersChar true false)
    (fun _ : Unit => (⟨.parseMethodStart, code, message, method, resource, query, [], name, value⟩,
      m)) (fun t _ => t) (fun c => c = 32 ∨ c = 13 ∨ c = 10) (fun _ c => by
      simp only [parseHeadersChar, parseHeadersSwitch, saveRawHeader, Bool.false_eq_true, if_false]
      split_ifs with hc hbad
      · exact fun h => (by cases h)
      · exact fun h => absurd h (by tauto)
      · exact fun _ => rfl) (t := ()) h
  have hword : s = (⟨.parseMethod, code, message, [d], resource, query, [], name, value⟩, m) := by
    simp only [parseHeadersChar, parseHeadersSwitch, saveRawHeader, Bool.false_eq_true,
      if_false] at hs
    split_ifs at hs with hc hbad
    · cases hs
      rfl
    · exact absurd hd (by tauto)
  subst hword
  rw [hscan] at h
  obtain ⟨word, c, w, s, rfl, hword, hc, hs, hscan'⟩ := scan_leaves (parseHeadersChar true false)
    (fun acc => (⟨.parseMethod, code, message, acc, resource, query, [], name, value⟩, m))
    (fun acc c => acc ++ [c]) (fun c => c ≠ 32) (fun acc c => by
      simp only [parseHeadersChar, parseHeadersSwitch, saveRawHeader, Bool.false_eq_true, if_false]
      split_ifs with h32
      · exact fun h => absurd h32 h
      · exact fun h => (by cases h)
      · exact fun h => (by cases h)
      · exact fun _ => rfl) h
  obtain rfl : c = 32 := not_not.1 hc
  cases hs
  rw [hscan'] at h
  obtain ⟨uri, c, v, rfl, huri, hend⟩ := scan_uri h
  refine ⟨skip, d, word, uri, c, v, by simp, hskip, hd, hword, huri, ?_⟩
  rcases hend with h13 | h10 | ⟨h32, resource', query', hscan''⟩
  · exact .inl h13
  · exact .inr (.inl h10)
  · exact .inr (.inr ⟨h32, _, resource', query', hscan.trans (hscan'.trans hscan'')⟩)

/-- The first letter of `HTTP/`, in whose place a line end may stand. -/
lemma scan_firstLetter (h : (scan (parseHeadersChar true false)
      (⟨.parseHttpVersionH, code, message, method, resource, query, [], name, value⟩, m)
      w).result = some .done) :
    ∃ c v m', w = c :: v ∧ scan (parseHeadersChar true false)
        (⟨.parseHttpVersionH, code, message, method, resource, query, [], name, value⟩, m) w =
      scan (parseHeadersChar true false)
        (⟨.parseHttpVersionT1, code, message, method, resource, query, [], name, value⟩, m') v := by
  cases w with
  | nil => cases h
  | cons c w =>
    by_cases h13 : c = 13
    · subst h13
      exact ⟨13, w, _, rfl, rfl⟩
    by_cases h10 : c = 10
    · subst h10
      exact ⟨10, w, _, rfl, rfl⟩
    by_cases h72 : c = 72
    · subst h72
      exact ⟨72, w, m, rfl, rfl⟩
    · have hstop : parseHeadersChar true false (⟨.parseHttpVersionH, code, message, method, resource,
          query, [], name, value⟩, m) c = .stop false (.failed (some .versionChar))
          (⟨.parseHttpVersionH, code, message, method, resource, query, [], name, value⟩, m) := by
        simp [parseHeadersChar, parseHeadersSwitch, parseHttpLetter, saveRawHeader, h13, h10, h72]
      rw [scan_halt hstop] at h
      cases h

end Machine

/-! ### The numbers that are read -/

lemma takeWhile_line {u : Bytes} (hu : ∀ d ∈ u, d ≠ 13 ∧ d ≠ 10) {c : Byte} (hc : c = 13 ∨ c = 10)
    (v : Bytes) : (u ++ c :: v).takeWhile (fun c => c ≠ 13 ∧ c ≠ 10) = u := by
  rw [List.takeWhile_append_of_pos fun d hd => by simpa using hu d hd,
    List.takeWhile_cons_of_neg (by rcases hc with rfl | rfl <;> simp), List.append_nil]

lemma line_of_digits {ds : Bytes} (hds : ∀ d ∈ ds, isDigit d = true) :
    ∀ d ∈ ds, d ≠ 13 ∧ d ≠ 10 := by
  intro d hd
  obtain ⟨-, -, h13, h10⟩ := ne_of_digit (hds d hd)
  exact ⟨h13, h10⟩

lemma versionText_request {skip word uri : Bytes} {d c : Byte}
    (hskip : ∀ d ∈ skip, d = 32 ∨ d = 13 ∨ d = 10) (hd : ¬ (d = 32 ∨ d = 13 ∨ d = 10))
    (hword : ∀ d ∈ word, d ≠ 32) (huri : ∀ d ∈ uri, d ≠ 32 ∧ d ≠ 13 ∧ d ≠ 10)
    (hc : c = 13 ∨ c = 10 ∨ c = 32) (v : Bytes) :
    versionText true (skip ++ (d :: word ++ 32 :: (uri ++ c :: v))) =
      if c = 32 then some ((v.drop 5).takeWhile fun c => c ≠ 13 ∧ c ≠ 10) else none := by
  have hwords : ∀ b ∈ d :: word, (decide (b ≠ 32)) = true := by
    intro b hb
    rcases List.mem_cons.1 hb with rfl | hb
    · simpa using (not_or.1 hd).1
    · simpa using hword b hb
  rw [versionText, if_pos rfl, List.dropWhile_append_of_pos fun b hb => by simpa using hskip b hb,
    List.cons_append, List.dropWhile_cons_of_neg (by simpa using hd), ← List.cons_append,
    List.dropWhile_append_of_pos hwords, List.dropWhile_cons_of_neg (by simp), List.drop_one,
    List.tail_cons, List.dropWhile_append_of_pos fun b hb => by simpa using huri b hb,
    List.dropWhile_cons_of_neg (by rcases hc with rfl | rfl | rfl <;> simp)]
  rcases hc with rfl | rfl | rfl <;> rfl

/-- A request has no version, or stores the digits of the version that it has; the blanks behind it
are skipped. -/
lemma storedNumbers_request {h : HeaderMachine} (hst : h.headersParseState = .parseMethodStart)
    (hraw : h.rawHeaders = []) {m : HTTPMessage} {w : Bytes}
    (hdone : (scan (parseHeadersChar true false) (h, m) w).result = some .done) :
    versionText true w = none ∨ ∃ ds x,
      versionText true w = some (ds ++ 46 :: x) ∧ ds ≠ [] ∧ (∀ c ∈ ds, isDigit c = true) ∧
      storedNumbers true (scan (parseHeadersChar true false) (h, m) w).state.1
          (scan (parseHeadersChar true false) (h, m) w).state.2 =
        [readNumeral 10 ds % uint16Mod, readNumeral 10 (x.filter isDigit) % uint16Mod] := by
  obtain ⟨st, code, message, method, resource, query, raw, name, value⟩ := h
  obtain rfl : st = .parseMethodStart := hst
  obtain rfl : raw = [] := hraw
  obtain ⟨skip, d, word, uri, c, v, rfl, hskip, hd, hword, huri, hend⟩ := scan_words hdone
  rcases hend with rfl | rfl | ⟨rfl, method', resource', query', hscan⟩
  · exact .inl (versionText_request hskip hd hword huri (.inl rfl) v)
  · exact .inl (versionText_request hskip hd hword huri (.inr (.inl rfl)) v)
  · refine .inr ?_
    rw [versionText_request hskip hd hword huri (.inr (.inr rfl)) v, if_pos rfl]
    rw [hscan] at hdone ⊢
    obtain ⟨b, v, m', rfl, hletter⟩ := scan_firstLetter hdone
    rw [hletter] at hdone ⊢
    obtain ⟨v, rfl, hletters⟩ := scan_letters rfl hdone
    rw [hletters] at hdone ⊢
    obtain ⟨ds, v, rfl, hne, hds, hmajor⟩ := scan_major hdone
    rw [hmajor] at hdone ⊢
    obtain ⟨d, u, c, v, s, rfl, hd, hu, hc, hbehind, hdata, hminor⟩ := scan_minor_request hdone
    rw [hminor]
    refine ⟨ds, d :: u, ?_, hne, hds, ?_⟩
    · have hline : ∀ b ∈ ds ++ 46 :: d :: u, b ≠ 13 ∧ b ≠ 10 := by
        refine List.forall_mem_append.2 ⟨line_of_digits hds, List.forall_mem_cons.2 ⟨by decide,
          List.forall_mem_cons.2 ⟨(ne_of_digit hd).2.2, ?_⟩⟩⟩
        intro b hb
        rcases hu b hb with hb | rfl
        · exact (ne_of_digit hb).2.2
        · decide
      have htext : (b :: ([84, 84, 80, 47] ++ (ds ++ 46 :: d :: (u ++ c :: v)))).drop 5 =
          (ds ++ 46 :: d :: u) ++ c :: v := by simp
      rw [htext, takeWhile_line hline hc]
    · have hkeep := (@scan_behindFirstLine true s hbehind v).trans hdata
      simp only [firstLineData, Prod.mk.injEq] at hkeep
      obtain ⟨-, -, hmaj, hmin⟩ := hkeep
      rw [storedNumbers, if_pos rfl, hmaj, hmin, List.filter_cons_of_pos hd]
      rfl

/-- A response stores the first three digit strings. -/
lemma storedNumbers_response {h : HeaderMachine} (hst : h.headersParseState = .parseHttpVersionH)
    (hraw : h.rawHeaders = []) {m : HTTPMessage} {w : Bytes}
    (hdone : (scan (parseHeadersChar false false) (h, m) w).result = some .done) :
    ∃ line a b c, versionText false w = some line ∧ (digitStrings line).take 3 = [a, b, c] ∧
      storedNumbers false (scan (parseHeadersChar false false) (h, m) w).state.1
          (scan (parseHeadersChar false false) (h, m) w).state.2 =
        [readNumeral 10 a % uint16Mod, readNumeral 10 b % uint16Mod,
          readNumeral 10 c % uint16Mod] := by
  obtain ⟨st, code, message, method, resource, query, raw, name, value⟩ := h
  obtain rfl : st = .parseHttpVersionH := hst
  obtain rfl : raw = [] := hraw
  obtain ⟨c, v, rfl, hletter⟩ : ∃ c v, w = c :: v ∧ scan (parseHeadersChar false false)
      (⟨.parseHttpVersionH, code, message, method, resource, query, [], name, value⟩, m) w =
      scan (parseHeadersChar false false)
      (⟨.parseHttpVersionT1, code, message, method, resource, query, [], name, value⟩, m) v := by
    cases w with
    | nil => cases hdone
    | cons c w =>
      by_cases h72 : c = 72
      · subst h72
        exact ⟨72, w, rfl, rfl⟩
      · obtain ⟨ev, hstop⟩ : ∃ ev, parseHeadersChar false false (⟨.parseHttpVersionH, code, message,
            method, resource, query, [], name, value⟩, m) c = .stop false (.failed (some ev))
            (⟨.parseHttpVersionH, code, message, method, resource, query, [], name, value⟩, m) := by
          by_cases hend : c = 13 ∨ c = 10
          · exact ⟨.versionEmpty, by simp [parseHeadersChar, parseHeadersSwitch, saveRawHeader,
              hend]⟩
          · exact ⟨.versionChar, by simp [parseHeadersChar, parseHeadersSwitch, parseHttpLetter,
              saveRawHeader, hend, h72]⟩
        rw [scan_halt hstop] at hdone
        cases hdone
  rw [hletter] at hdone ⊢
  obtain ⟨v, rfl, hletters⟩ := scan_letters rfl hdone
  rw [hletters] at hdone ⊢
  obtain ⟨ds, v, rfl, hne, hds, hmajor⟩ := scan_major hdone
  rw [hmajor] at hdone ⊢
  obtain ⟨ds', v, rfl, hne', hds', hminor⟩ := scan_minor_response hdone
  rw [hminor] at hdone ⊢
  obtain ⟨ds'', e, v, s, rfl, hne'', hds'', he, hbehind, hdata, hstatus⟩ := scan_status hdone
  rw [hstatus]
  set t := (e :: v).takeWhile fun c => c ≠ 13 ∧ c ≠ 10 with ht
  have hline : versionText false (c :: ([84, 84, 80, 47] ++ (ds ++ 46 :: (ds' ++ 32 :: (ds'' ++
      e :: v))))) = some (ds ++ 46 :: (ds' ++ 32 :: (ds'' ++ t))) := by
    have hdigits : ∀ ds : Bytes, (∀ d ∈ ds, isDigit d = true) →
        ∀ d ∈ ds, decide (d ≠ 13 ∧ d ≠ 10) = true := fun ds hds d hd => by
      simpa using line_of_digits hds d hd
    have hdrop : (c :: ([84, 84, 80, 47] ++ (ds ++ 46 :: (ds' ++ 32 :: (ds'' ++ e :: v))))).drop 5 =
        ds ++ 46 :: (ds' ++ 32 :: (ds'' ++ e :: v)) := by simp
    rw [versionText, if_neg Bool.false_ne_true, hdrop]
    dsimp only
    rw [List.takeWhile_append_of_pos (hdigits ds hds), List.takeWhile_cons_of_pos (by decide),
      List.takeWhile_append_of_pos (hdigits ds' hds'), List.takeWhile_cons_of_pos (by decide),
      List.takeWhile_append_of_pos (hdigits ds'' hds'')]
  have hthird : ∃ rest, digitStrings (ds'' ++ t) = ds'' :: rest := by
    rcases he with rfl | rfl | rfl
    · rw [ht, List.takeWhile_cons_of_pos (by decide), digitStrings_append hne'' hds'' (by decide)]
      exact ⟨_, rfl⟩
    · exact ⟨[], by simpa [ht] using digitStrings_self hne'' hds''⟩
    · exact ⟨[], by simpa [ht] using digitStrings_self hne'' hds''⟩
  obtain ⟨rest, hrest⟩ := hthird
  refine ⟨_, ds, ds', ds'', hline, ?_, ?_⟩
  · rw [digitStrings_append hne hds (by decide), digitStrings_append hne' hds' (by decide), hrest]
    rfl
  · have hkeep := (@scan_behindFirstLine false s hbehind v).trans hdata
    simp only [firstLineData, Prod.mk.injEq] at hkeep
    obtain ⟨⟨hcode, -⟩, -, hmaj, hmin⟩ := hkeep
    rw [storedNumbers, if_neg Bool.false_ne_true, hmaj, hmin, hcode]
    rfl

/-! ### Chunk sizes -/

/-- The headers of the chunks in a text, each with the size that is used for its chunk; `u` is
what was read of the present one. -/
def chunkSizes (maxContentLength : ℕ) :
    ChunkMachine × Bytes → Bytes → Bytes → List (Bytes × ℕ)
  | _, _, [] => []
  | s, u, c :: w =>
      match parseChunksChar maxContentLength s c with
      | .stop _ _ _ => []
      | .next s' =>
          if s.1.chunkedContentParseState = .parseExpectingLfAfterChunkSize then
            (u, s'.1.sizeOfCurrentChunk) :: chunkSizes maxContentLength s' [] w
          else if s.1.chunkedContentParseState = .parseExpectingLfAfterChunk then
            chunkSizes maxContentLength s' [] w
          else chunkSizes maxContentLength s' (u ++ [c]) w

/-- The value of the digits of a chunk header. -/
def chunkValue (u : Bytes) : ℕ := readNumeral 16 (u.filter isHexDigit)

/-- The digits that are kept are those of the header. -/
def KeepsDigits (s : ChunkMachine) (u : Bytes) : Prop :=
  match s.chunkedContentParseState with
  | .parseChunkSizeStart => u.filter isHexDigit = []
  | .parseChunkSize | .parseExpectingCrAfterChunkSize | .parseExpectingLfAfterChunkSize =>
      s.chunkSizeStr = u.filter isHexDigit
  | _ => True

/-- In a turn of the loop the size is taken from the digits, or they are kept. -/
lemma keepsDigits_next {maxContentLength : ℕ} {s t : ChunkMachine × Bytes} {u : Bytes} {c : Byte}
    (hs : KeepsDigits s.1 u) (h : parseChunksChar maxContentLength s c = .next t) :
    (s.1.chunkedContentParseState = .parseExpectingLfAfterChunkSize →
        t.1.sizeOfCurrentChunk = min (chunkValue u) longMax ∧ KeepsDigits t.1 []) ∧
      (s.1.chunkedContentParseState = .parseExpectingLfAfterChunk → KeepsDigits t.1 []) ∧
      (s.1.chunkedContentParseState ≠ .parseExpectingLfAfterChunkSize →
        s.1.chunkedContentParseState ≠ .parseExpectingLfAfterChunk → KeepsDigits t.1 (u ++ [c])) := by
  obtain ⟨⟨st, digits, size, read⟩, cache⟩ := s
  cases st with
  | parseChunkSizeStart =>
    refine ⟨fun h => (by cases h), fun h => (by cases h), fun _ _ => ?_⟩
    have hu : u.filter isHexDigit = [] := hs
    simp only [parseChunksChar] at h
    split_ifs at h with hc hblank
    · cases h
      simp [KeepsDigits, List.filter_append, hu, hc]
    · cases h
      simp [KeepsDigits, List.filter_append, hu, hc]
  | parseChunkSize =>
    refine ⟨fun h => (by cases h), fun h => (by cases h), fun _ _ => ?_⟩
    have hu : digits = u.filter isHexDigit := hs
    simp only [parseChunksChar] at h
    split_ifs at h with hc
    all_goals
      cases h
      simp [KeepsDigits, List.filter_append, hu, hc]
  | parseExpectingCrAfterChunkSize =>
    refine ⟨fun h => (by cases h), fun h => (by cases h), fun _ _ => ?_⟩
    have hu : digits = u.filter isHexDigit := hs
    have hcr : isHexDigit 13 = false := by decide
    have hblank : isHexDigit 32 = false ∧ isHexDigit 9 = false := by decide
    simp only [parseChunksChar] at h
    split_ifs at h with h13 h32
    · cases h
      simp [KeepsDigits, List.filter_append, hu, h13, hcr]
    · cases h
      rcases h32 with rfl | rfl <;> simp [KeepsDigits, List.filter_append, hu, hblank]
  | parseExpectingLfAfterChunkSize =>
    refine ⟨fun _ => ?_, fun h => (by cases h), fun h => absurd rfl h⟩
    have hu : digits = u.filter isHexDigit := hs
    simp only [parseChunksChar] at h
    split_ifs at h with h10 hsize
    all_goals
      cases h
      exact ⟨by rw [hu]; rfl, trivial⟩
  | parseChunk =>
    refine ⟨fun h => (by cases h), fun h => (by cases h), fun _ _ => ?_⟩
    simp only [parseChunksChar] at h
    cases h
    simp only [KeepsDigits]
    split_ifs <;> trivial
  | parseExpectingCrAfterChunk =>
    refine ⟨fun h => (by cases h), fun h => (by cases h), fun _ _ => ?_⟩
    simp only [parseChunksChar, parseExpected] at h
    split_ifs at h
    cases h
    trivial
  | parseExpectingLfAfterChunk =>
    refine ⟨fun h => (by cases h), fun _ => ?_, fun _ h => absurd rfl h⟩
    simp only [parseChunksChar, parseExpected] at h
    split_ifs at h
    cases h
    rfl
  | parseExpectingFinalCrAfterLastChunk =>
    refine ⟨fun h => (by cases h), fun h => (by cases h), fun _ _ => ?_⟩
    simp only [parseChunksChar, parseExpected] at h
    split_ifs at h
    cases h
    trivial
  | parseExpectingFinalLfAfterLastChunk =>
    simp only [parseChunksChar] at h
    split_ifs at h

/-- The size that is used is the value of the digits, or the largest `long`. -/
lemma chunkSizes_eq {maxContentLength : ℕ} {s : ChunkMachine × Bytes} {u w : Bytes}
    (hs : KeepsDigits s.1 u) :
    ∀ x ∈ chunkSizes maxContentLength s u w, x.2 = min (chunkValue x.1) longMax := by
  induction w generalizing s u with
  | nil => simp [chunkSizes]
  | cons c w ih =>
    rw [chunkSizes]
    cases hc : parseChunksChar maxContentLength s c with
    | stop b r t => simp
    | next t =>
      obtain ⟨hsize, hend, hrest⟩ := keepsDigits_next hs hc
      dsimp only
      split_ifs with h1 h2
      · exact List.forall_mem_cons.2 ⟨(hsize h1).1, ih (hsize h1).2⟩
      · exact ih (hend h2)
      · exact ih (hrest h1 h2)

/-! ### When the numbers are those of the digits -/

/-- The numbers of the first line are the values of its digit strings. -/
def NumbersExact (isRequest : Bool) (w : Bytes) (x : Session) : Prop :=
  ∀ line ∈ versionText isRequest w,
    storedNumbers isRequest x.parser.header x.msg =
      (lineNumbers isRequest line).map (readNumeral 10)

/-- The first line has as many digit strings as numbers, and their values fit. -/
def NumbersFit (isRequest : Bool) (w : Bytes) : Prop :=
  ∀ line ∈ versionText isRequest w,
    (lineNumbers isRequest line).length = numberCount isRequest ∧
      ∀ ds ∈ lineNumbers isRequest line, readNumeral 10 ds < uint16Mod

namespace Session

lemma mod_eq_self_iff {n : ℕ} : n % uint16Mod = n ↔ n < uint16Mod :=
  Nat.mod_eq_iff_lt (by decide)

/-- The numbers of an accepted request. -/
lemma numbersExact_request {h : HeaderMachine} (hst : h.headersParseState = .parseMethodStart)
    (hraw : h.rawHeaders = []) {m : HTTPMessage} {w : Bytes}
    (hdone : (scan (parseHeadersChar true false) (h, m) w).result = some .done) :
    (∀ line ∈ versionText true w, storedNumbers true
        (scan (parseHeadersChar true false) (h, m) w).state.1
        (scan (parseHeadersChar true false) (h, m) w).state.2 =
          (lineNumbers true line).map (readNumeral 10)) ↔ NumbersFit true w := by
  rw [NumbersFit]
  rcases storedNumbers_request hst hraw hdone with hnone | ⟨ds, x, htext, hne, hds, hstored⟩
  · simp [hnone]
  · rw [htext, hstored, ← flatten_digitStrings]
    simp only [Option.mem_def, Option.some.injEq, forall_eq', lineNumbers, if_true, numberCount]
    rw [digitStrings_append hne hds (by decide)]
    rcases digitStrings x with _ | ⟨y, _ | ⟨z, l⟩⟩
    · simp
    · simp [mod_eq_self_iff]
    · simp

/-- The numbers of an accepted response. -/
lemma numbersExact_response {h : HeaderMachine} (hst : h.headersParseState = .parseHttpVersionH)
    (hraw : h.rawHeaders = []) {m : HTTPMessage} {w : Bytes}
    (hdone : (scan (parseHeadersChar false false) (h, m) w).result = some .done) :
    (∀ line ∈ versionText false w, storedNumbers false
        (scan (parseHeadersChar false false) (h, m) w).state.1
        (scan (parseHeadersChar false false) (h, m) w).state.2 =
          (lineNumbers false line).map (readNumeral 10)) ↔ NumbersFit false w := by
  obtain ⟨line, a, b, c, htext, htake, hstored⟩ := storedNumbers_response hst hraw hdone
  rw [NumbersFit, htext, hstored]
  simp only [Option.mem_def, Option.some.injEq, forall_eq', lineNumbers, Bool.false_eq_true,
    if_false, numberCount, htake]
  simp [mod_eq_self_iff]

/-- The numbers of an accepted header are exact if they fit. -/
lemma numbersExact_iff {s : Session}
    (hs : s.parser.header.headersParseState = initialHeadersState s.parser.isRequest) {w : Bytes}
    (hyes : (s.setReadBuffer w).parseHeaders.1 = .yes) :
    NumbersExact s.parser.isRequest w (s.setReadBuffer w).parseHeaders.2 ↔
      NumbersFit s.parser.isRequest w := by
  obtain ⟨h, m, hstate, hparse⟩ := s.parseHeaders_rawless w
  rw [hparse] at hyes ⊢
  have hdone := afterLoop_yes hyes
  have hstored : ∀ isRequest, storedNumbers isRequest h m =
      storedNumbers isRequest (rawless (h, m)).1 (rawless (h, m)).2 := fun isRequest => rfl
  have hexact : ∀ isRequest r, NumbersExact isRequest w ((s.setReadBuffer w).afterLoop
      { s.parser with readBuf := w, header := h } m r false (some .done)).2 ↔
      ∀ line ∈ versionText isRequest w, storedNumbers isRequest h m =
        (lineNumbers isRequest line).map (readNumeral 10) := fun isRequest r => Iff.rfl
  rw [hdone, hexact, hstored, hstate]
  have hst : (rawless (s.parser.header, s.msg)).1.headersParseState =
      initialHeadersState s.parser.isRequest := hs
  have hraw : (rawless (s.parser.header, s.msg)).1.rawHeaders = [] := rfl
  generalize rawless (s.parser.header, s.msg) = x at hst hraw hdone ⊢
  cases hr : s.parser.isRequest with
  | true =>
    rw [hr] at hst hdone
    exact numbersExact_request hst hraw hdone
  | false =>
    rw [hr] at hst hdone
    exact numbersExact_response hst hraw hdone

/-- The numbers of a message are exact if they fit: those of the first line of an accepted header,
and the sizes of the chunks of any text that is read as chunks. -/
theorem numbers_exact_iff {s : Session}
    (hs : s.parser.header.headersParseState = initialHeadersState s.parser.isRequest) {w : Bytes}
    (hyes : (s.setReadBuffer w).parseHeaders.1 = .yes) {p : ChunkMachine}
    (hp : p.chunkedContentParseState = .parseChunkSizeStart) (cache v : Bytes) :
    (NumbersExact s.parser.isRequest w (s.setReadBuffer w).parseHeaders.2 ∧
      ∀ x ∈ chunkSizes s.parser.maxContentLength (p, cache) [] v, x.2 = chunkValue x.1) ↔
    NumbersFit s.parser.isRequest w ∧
      ∀ x ∈ chunkSizes s.parser.maxContentLength (p, cache) [] v, chunkValue x.1 ≤ longMax := by
  refine and_congr (numbersExact_iff hs hyes) (forall₂_congr fun x hx => ?_)
  have hkeeps : KeepsDigits p [] := by
    rw [KeepsDigits, hp]
    rfl
  rw [chunkSizes_eq hkeeps x hx, min_eq_left_iff]

/-- A response and a chunk with numbers that fit. -/
theorem numbers_exact_iff_ok :
    let s := newSession false 100 false false (.newResponse []) .success
    let w := ascii "HTTP/1.1 200 OK\r\n\r\n"
    (NumbersExact false w (s.setReadBuffer w).parseHeaders.2 ∧
      ∀ x ∈ chunkSizes 100 ({}, []) [] (ascii "1\r\na\r\n0\r\n\r\n"), x.2 = chunkValue x.1) ↔
    NumbersFit false w ∧
      ∀ x ∈ chunkSizes 100 ({}, []) [] (ascii "1\r\na\r\n0\r\n\r\n"), chunkValue x.1 ≤ longMax :=
  numbers_exact_iff (s := newSession false 100 false false (.newResponse []) .success) rfl
    (by decide +kernel) rfl [] _

/-- A status code that does not fit is accepted, and read as 200. -/
theorem not_numbers_exact :
    ¬ ∀ w : Bytes, ((newSession false 100 false false (.newResponse []) .success).setReadBuffer
        w).parseHeaders.1 = .yes →
      NumbersExact false w ((newSession false 100 false false (.newResponse [])
        .success).setReadBuffer w).parseHeaders.2 := by
  intro h
  have hexact := h (ascii "HTTP/1.1 65736 OK\r\n\r\n") (by decide +kernel) (ascii "1.1 65736 OK")
    (by decide +kernel)
  revert hexact
  decide +kernel

end Session

end PionCore.Net
