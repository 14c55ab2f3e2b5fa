/-
# Cookies are read back

A list of cookies, each with or without quotes, is parsed by `parseCookieHeader` into the names
and values that were written, and so is the header that `make_set_cookie_header` builds, as long
as the path that stands between quotes in it has none itself.
-/
import PionCore.Net.HTTPCookieAuth
import PionCore.Net.HeaderText

namespace PionCore.Net

open PionCore.Lib

/-- A cookie of a `Cookie` header, with or without quotes around its value. -/
structure RenderedCookie where
  name : Bytes
  value : Bytes
  quoted : Bool

namespace RenderedCookie

/-- The text of a cookie. -/
def text (c : RenderedCookie) : Bytes :=
  c.name ++ ascii "=" ++ if c.quoted then ascii "\"" ++ c.value ++ ascii "\"" else c.value

/-- The pair that is stored for a cookie. -/
def entry (c : RenderedCookie) : Bytes × Bytes := (c.name, c.value)

lemma text_quoted (name value rest : Bytes) :
    text ⟨name, value, true⟩ ++ rest = name ++ (61 :: 34 :: (value ++ (34 :: rest))) := by
  simp [text, show ascii "=" = [61] from rfl, show ascii "\"" = [34] from rfl]

lemma text_bare (name value rest : Bytes) :
    text ⟨name, value, false⟩ ++ rest = name ++ (61 :: (value ++ rest)) := by
  simp [text, show ascii "=" = [61] from rfl]

end RenderedCookie

/-- A token that is not the name of a reserved attribute. -/
structure IsCookieName (name : Bytes) (setCookieHeader : Bool) : Prop where
  token : IsToken name
  max : name.length ≤ cookieNameMax
  notAttribute : isCookieAttribute name setCookieHeader = false

/-- A value that can stand between double quotes. -/
structure IsQuotedValue (value : Bytes) : Prop where
  text : IsText value
  max : value.length ≤ cookieValueMax
  delimiter : 34 ∉ value

/-- A value that can stand without quotes. -/
structure IsBareValue (value : Bytes) : Prop where
  text : IsText value
  max : value.length ≤ cookieValueMax
  delimiter : ∀ c ∈ value, c ≠ 59 ∧ c ≠ 44 ∧ c ≠ 34 ∧ c ≠ 39 ∧ c ≠ 32

/-- A cookie that can be read back. -/
structure RenderedCookie.Ok (c : RenderedCookie) : Prop where
  name : IsCookieName c.name false
  quotedValue : c.quoted = true → IsQuotedValue c.value
  bareValue : c.quoted = false → IsBareValue c.value

/-! ### Reading a cookie -/

section Machine

variable {setCookieHeader : Bool} {d : StringDictionary} {name value : Bytes} {q : Byte}

/-- A token has no delimiter of a cookie in it. -/
lemma ne_of_cookieToken {c : Byte} (h : badTokenChar c = false) :
    c ≠ 61 ∧ c ≠ 59 ∧ c ≠ 44 ∧ c ≠ 32 ∧ isControl c = false := by
  simp only [badTokenChar, Bool.or_eq_false_iff] at h
  refine ⟨?_, ?_, ?_, ?_, h.1.2⟩ <;>
  · rintro rfl
    exact absurd h.2 (by decide)

/-- The name of a cookie is read up to the equal sign. -/
lemma scan_cookieName (hname : IsToken name) (hmax : name.length ≤ cookieNameMax)
    (rest : Bytes) :
    scan (parseCookieChar setCookieHeader) ⟨.cookieParseName, [], [], q, d⟩
        (name ++ (61 :: rest)) =
      scan (parseCookieChar setCookieHeader) ⟨.cookieParseValue, name, [], 0, d⟩ rest := by
  have hcollect := scan_collect (parseCookieChar setCookieHeader)
    (fun acc => (⟨.cookieParseName, acc, [], q, d⟩ : CookieParse)) cookieNameMax
    (P := fun c => badTokenChar c = false) (fun acc c hc hlt => ?_) hname.2 (a := [])
    (by rwa [List.length_nil, Nat.zero_add]) (61 :: rest)
  · rw [hcollect]
    rfl
  · obtain ⟨h61, h59, h44, h32, hctl⟩ := ne_of_cookieToken hc
    simp [parseCookieChar, h61, h59, h44, h32, hctl, not_le.2 hlt]

/-- A value between quotes is read and stored with its name. -/
lemma scan_quotedValue (hvalue : 34 ∉ value) (hmax : value.length ≤ cookieValueMax)
    (rest : Bytes) :
    scan (parseCookieChar setCookieHeader) ⟨.cookieParseValue, name, [], 0, d⟩
        (34 :: (value ++ (34 :: rest))) =
      scan (parseCookieChar setCookieHeader)
        ⟨.cookieParseIgnore, [], [], 34,
          CookieParse.store ⟨.cookieParseValue, name, value, 34, d⟩ setCookieHeader⟩ rest := by
  have hcollect := scan_collect (parseCookieChar setCookieHeader)
    (fun acc => (⟨.cookieParseValue, name, acc, 34, d⟩ : CookieParse)) cookieValueMax
    (P := fun c => c ≠ 34) (fun acc c hc hlt => ?_)
    (fun c hc hquote => hvalue (hquote ▸ hc)) (a := [])
    (by rwa [List.length_nil, Nat.zero_add]) (34 :: rest)
  · exact hcollect
  · simp [parseCookieChar, hc, not_le.2 hlt]

/-- A value without quotes is read up to the next delimiter, or to the end. -/
lemma scan_bareValue (hvalue : IsBareValue value) (rest : Bytes) :
    scan (parseCookieChar setCookieHeader) ⟨.cookieParseValue, name, [], 0, d⟩
        (value ++ rest) =
      scan (parseCookieChar setCookieHeader) ⟨.cookieParseValue, name, value, 0, d⟩ rest := by
  have hcollect := scan_collect (parseCookieChar setCookieHeader)
    (fun acc => (⟨.cookieParseValue, name, acc, 0, d⟩ : CookieParse)) cookieValueMax
    (P := fun c => isControl c = false ∧ c ≠ 59 ∧ c ≠ 44 ∧ c ≠ 34 ∧ c ≠ 39 ∧ c ≠ 32)
    (fun acc c hc hlt => ?_) (fun c hc => ⟨hvalue.text c hc, hvalue.delimiter c hc⟩) (a := [])
    (by rw [List.length_nil, Nat.zero_add]; exact hvalue.max) rest
  · exact hcollect
  · obtain ⟨hctl, h59, h44, h34, h39, h32⟩ := hc
    simp [parseCookieChar, hctl, h59, h44, h34, h39, h32, not_le.2 hlt]

/-- What is ignored behind a quoted value ends with the delimiter of the next cookie. -/
lemma scan_ignored (rest : Bytes) :
    scan (parseCookieChar setCookieHeader) ⟨.cookieParseIgnore, [], [], q, d⟩ (59 :: 32 :: rest) =
      scan (parseCookieChar setCookieHeader) ⟨.cookieParseName, [], [], q, d⟩ rest := rfl

lemma store_attribute {st : CookieParseState} (h : isCookieAttribute name setCookieHeader = true) :
    CookieParse.store ⟨st, name, value, q, d⟩ setCookieHeader = d := if_pos h

lemma store_cookie {st : CookieParseState} (h : isCookieAttribute name setCookieHeader = false) :
    CookieParse.store ⟨st, name, value, q, d⟩ setCookieHeader = d ++ [(name, value)] := by
  rw [CookieParse.store, if_neg (by rw [h]; simp)]
  rfl

end Machine

/-! ### `Cookie` headers -/

/-- The parser in front of a cookie, with those stored that it has read. -/
def cookieStart (d : StringDictionary) (q : Byte) : CookieParse :=
  ⟨.cookieParseName, [], [], q, d⟩

/-- A cookie is stored at its delimiter at the latest. -/
lemma scan_cookie {c : RenderedCookie} (hc : c.Ok) (d : StringDictionary) (q : Byte)
    (rest : Bytes) :
    ∃ q', scan (parseCookieChar false) (cookieStart d q) (c.text ++ (59 :: 32 :: rest)) =
      scan (parseCookieChar false) (cookieStart (d ++ [c.entry]) q') rest := by
  obtain ⟨name, value, quoted⟩ := c
  obtain ⟨⟨htoken, hmax, hattribute⟩, hquoted, hbare⟩ := hc
  cases quoted with
  | true =>
    obtain ⟨-, hvalueMax, hdelimiter⟩ := hquoted rfl
    refine ⟨34, ?_⟩
    rw [RenderedCookie.text_quoted, cookieStart, scan_cookieName htoken hmax,
      scan_quotedValue hdelimiter hvalueMax, store_cookie hattribute]
    rfl
  | false =>
    refine ⟨0, ?_⟩
    have hend : scan (parseCookieChar false) ⟨.cookieParseValue, name, value, 0, d⟩
        (59 :: 32 :: rest) = scan (parseCookieChar false) ⟨.cookieParseName, [], [], 0,
          CookieParse.store ⟨.cookieParseValue, name, value, 0, d⟩ false⟩ rest := rfl
    rw [RenderedCookie.text_bare, cookieStart, scan_cookieName htoken hmax,
      scan_bareValue (hbare rfl), hend,
      store_cookie hattribute]
    rfl

/-- The last cookie is stored at its closing quote, or at the end of the header. -/
lemma scan_lastCookie {c : RenderedCookie} (hc : c.Ok) (d : StringDictionary) (q : Byte) :
    (scan (parseCookieChar false) (cookieStart d q) c.text).result = none ∧
      (scan (parseCookieChar false) (cookieStart d q) c.text).state.store false =
        d ++ [c.entry] := by
  obtain ⟨name, value, quoted⟩ := c
  obtain ⟨⟨htoken, hmax, hattribute⟩, hquoted, hbare⟩ := hc
  cases quoted with
  | true =>
    obtain ⟨-, hvalueMax, hdelimiter⟩ := hquoted rfl
    rw [← List.append_nil (RenderedCookie.text _), RenderedCookie.text_quoted, cookieStart,
      scan_cookieName htoken hmax, scan_quotedValue hdelimiter hvalueMax,
      store_cookie hattribute, scan_nil]
    exact ⟨rfl, store_attribute rfl⟩
  | false =>
    rw [← List.append_nil (RenderedCookie.text _), RenderedCookie.text_bare, cookieStart,
      scan_cookieName htoken hmax, scan_bareValue (hbare rfl), scan_nil]
    exact ⟨rfl, store_cookie hattribute⟩

/-- The cookies are read one after the other. -/
lemma scan_cookies {cs : List RenderedCookie} (hcs : ∀ c ∈ cs, c.Ok) (d : StringDictionary)
    (q : Byte) :
    let r := scan (parseCookieChar false) (cookieStart d q)
      (List.intercalate (ascii "; ") (cs.map RenderedCookie.text))
    r.result = none ∧ r.state.store false = d ++ cs.map RenderedCookie.entry := by
  induction cs generalizing d q with
  | nil => exact ⟨rfl, (List.append_nil d).symm⟩
  | cons c cs ih =>
    have hc := hcs c List.mem_cons_self
    cases cs with
    | nil => simpa [List.intercalate] using scan_lastCookie hc d q
    | cons c' cs =>
      have htext : List.intercalate (ascii "; ") ((c :: c' :: cs).map RenderedCookie.text) =
          c.text ++ (59 :: 32 :: List.intercalate (ascii "; ")
            ((c' :: cs).map RenderedCookie.text)) := by
        simp [List.intercalate, show ascii "; " = [59, 32] from rfl]
      obtain ⟨q', hscan⟩ := scan_cookie hc d q
        (List.intercalate (ascii "; ") ((c' :: cs).map RenderedCookie.text))
      have hrest := ih (fun e he => hcs e (List.mem_cons_of_mem c he)) (d ++ [c.entry]) q'
      rw [htext, hscan]
      rwa [List.append_assoc] at hrest

/-- A `Cookie` header is read as the cookies that it was made of. -/
lemma parseCookieHeader_cookies {cs : List RenderedCookie} (hcs : ∀ c ∈ cs, c.Ok) :
    parseCookieHeader [] (List.intercalate (ascii "; ") (cs.map RenderedCookie.text)) false =
      (true, cs.map RenderedCookie.entry) := by
  obtain ⟨hresult, hstore⟩ := scan_cookies hcs [] 0
  rw [parseCookieHeader, show ({ dict := [] } : CookieParse) = cookieStart [] 0 from rfl, hresult]
  exact congrArg (Prod.mk true) hstore

/-! ### `Set-Cookie` headers -/

/-- An attribute with a quoted value is skipped. -/
lemma scan_attribute (name value : Bytes) (hname : IsToken name)
    (hmax : name.length ≤ cookieNameMax) (hattribute : isCookieAttribute name true = true)
    (hvalue : 34 ∉ value) (hvalueMax : value.length ≤ cookieValueMax) (d : StringDictionary)
    (q : Byte) (rest : Bytes) :
    scan (parseCookieChar true) ⟨.cookieParseIgnore, [], [], q, d⟩
        (59 :: 32 :: (name ++ (61 :: 34 :: (value ++ (34 :: rest))))) =
      scan (parseCookieChar true) ⟨.cookieParseIgnore, [], [], 34, d⟩ rest := by
  rw [scan_ignored, scan_cookieName hname hmax, scan_quotedValue hvalue hvalueMax,
    store_attribute hattribute]

/-- The part of a `Set-Cookie` header behind the value of the cookie. -/
lemma scan_attributes {path : Bytes} {maxAge : Option ℕ} (hpath : 34 ∉ path)
    (hpathMax : path.length ≤ cookieValueMax) (hage : ∀ n ∈ maxAge, n < sizeMod)
    (d : StringDictionary) :
    ∃ q, scan (parseCookieChar true) ⟨.cookieParseIgnore, [], [], 34, d⟩
      (ascii "; Version=\"1\"" ++ ((if path ≠ [] then ascii "; Path=\"" ++ path ++ ascii "\""
        else []) ++ match maxAge with
          | some n => ascii "; Max-Age=\"" ++ numeral 10 n ++ ascii "\""
          | none => [])) = ⟨none, [], ⟨.cookieParseIgnore, [], [], q, d⟩⟩ := by
  have hversion : ∀ rest : Bytes, scan (parseCookieChar true)
      ⟨.cookieParseIgnore, [], [], 34, d⟩ (ascii "; Version=\"1\"" ++ rest) =
      scan (parseCookieChar true) ⟨.cookieParseIgnore, [], [], 34, d⟩ rest := fun rest =>
    scan_attribute (ascii "Version") [49] (by decide) (by decide) (by decide) (by decide)
      (by decide) d 34 rest
  have hpathText : ∀ rest : Bytes, scan (parseCookieChar true)
      ⟨.cookieParseIgnore, [], [], 34, d⟩ ((if path ≠ [] then ascii "; Path=\"" ++ path ++
        ascii "\"" else []) ++ rest) =
      scan (parseCookieChar true) ⟨.cookieParseIgnore, [], [], 34, d⟩ rest := by
    intro rest
    split_ifs
    · have h := scan_attribute (ascii "Path") path (by decide) (by decide) (by decide) hpath
        hpathMax d 34 rest
      rw [List.append_assoc, List.append_assoc]
      exact h
    · rfl
  rw [hversion, hpathText]
  cases maxAge with
  | none => exact ⟨34, rfl⟩
  | some n =>
    have hdigits : 34 ∉ numeral 10 n := fun h => absurd (isDigit_of_mem_numeral h) (by decide)
    have hlength : (numeral 10 n).length ≤ 20 :=
      length_numeral (by decide) ((hage n rfl).trans (by decide))
    have h := scan_attribute (ascii "Max-Age") (numeral 10 n) (by decide) (by decide) (by decide)
      hdigits (hlength.trans (by decide)) d 34 []
    refine ⟨34, ?_⟩
    dsimp only
    rw [List.append_assoc]
    exact h

/-- A `Set-Cookie` header is read as the one cookie that it sets, if its path can stand between
quotes. -/
lemma parseCookieHeader_setCookie {name value path : Bytes} {maxAge : Option ℕ}
    (hname : IsCookieName name true) (hvalue : IsQuotedValue value)
    (hpath : 34 ∉ path) (hpathMax : path.length ≤ cookieValueMax)
    (hage : ∀ n ∈ maxAge, n < sizeMod) :
    parseCookieHeader [] (makeSetCookieHeader name value path maxAge) true =
      (true, [(name, value)]) := by
  obtain ⟨q, hattributes⟩ := scan_attributes hpath hpathMax hage [(name, value)]
  have hscan : scan (parseCookieChar true) { dict := [] }
      (makeSetCookieHeader name value path maxAge) =
        ⟨none, [], ⟨.cookieParseIgnore, [], [], q, [(name, value)]⟩⟩ := by
    have hopen : ∀ w : Bytes, ascii "=\"" ++ w = 61 :: 34 :: w := fun _ => rfl
    have hclose : ∀ w : Bytes, ascii "\"; Version=\"1\"" ++ w =
        34 :: (ascii "; Version=\"1\"" ++ w) := fun _ => rfl
    unfold makeSetCookieHeader
    simp only [List.append_assoc, List.cons_append, hopen, hclose]
    show scan (parseCookieChar true) ⟨.cookieParseName, [], [], 0, []⟩ _ = _
    rw [scan_cookieName hname.token hname.max, scan_quotedValue hvalue.delimiter hvalue.max,
      store_cookie hname.notAttribute]
    cases maxAge <;> simpa only [List.append_assoc, List.nil_append] using hattributes
  rw [parseCookieHeader, hscan]
  exact congrArg (Prod.mk true) (store_attribute rfl)

/-- Cookies are read back from a `Cookie` header, and from a `Set-Cookie` header whose path has no
quotes in it and is no longer than a value may be. -/
theorem cookie_round_trip :
    (∀ cs : List RenderedCookie, (∀ c ∈ cs, c.Ok) →
      parseCookieHeader [] (List.intercalate (ascii "; ") (cs.map RenderedCookie.text)) false =
        (true, cs.map RenderedCookie.entry)) ∧
    ∀ (name value path : Bytes) (maxAge : Option ℕ), IsCookieName name true →
      IsQuotedValue value → 34 ∉ path → path.length ≤ cookieValueMax →
      (∀ n ∈ maxAge, n < sizeMod) →
      parseCookieHeader [] (makeSetCookieHeader name value path maxAge) true =
        (true, [(name, value)]) :=
  ⟨fun _ hcs => parseCookieHeader_cookies hcs, fun _ _ _ _ hname hvalue hpath hpathMax hage =>
    parseCookieHeader_setCookie hname hvalue hpath hpathMax hage⟩

instance (name : Bytes) (setCookieHeader : Bool) : Decidable (IsCookieName name setCookieHeader) :=
  decidable_of_iff (IsToken name ∧ name.length ≤ cookieNameMax ∧
      isCookieAttribute name setCookieHeader = false)
    ⟨fun h => ⟨h.1, h.2.1, h.2.2⟩, fun h => ⟨h.token, h.max, h.notAttribute⟩⟩

instance (value : Bytes) : Decidable (IsQuotedValue value) :=
  decidable_of_iff (IsText value ∧ value.length ≤ cookieValueMax ∧ 34 ∉ value)
    ⟨fun h => ⟨h.1, h.2.1, h.2.2⟩, fun h => ⟨h.text, h.max, h.delimiter⟩⟩

instance (value : Bytes) : Decidable (IsBareValue value) :=
  decidable_of_iff (IsText value ∧ value.length ≤ cookieValueMax ∧
      (value.all fun c => c ≠ 59 ∧ c ≠ 44 ∧ c ≠ 34 ∧ c ≠ 39 ∧ c ≠ 32) = true)
    ⟨fun h => ⟨h.1, h.2.1, by simpa using h.2.2⟩,
      fun h => ⟨h.text, h.max, by simpa using h.delimiter⟩⟩

instance (c : RenderedCookie) : Decidable c.Ok :=
  decidable_of_iff (IsCookieName c.name false ∧ (c.quoted = true → IsQuotedValue c.value) ∧
      (c.quoted = false → IsBareValue c.value))
    ⟨fun h => ⟨h.1, h.2.1, h.2.2⟩, fun h => ⟨h.name, h.quotedValue, h.bareValue⟩⟩

/-- Quoted and bare values, empty ones and delimiters between quotes. -/
theorem cookie_round_trip_of_mixed :
    parseCookieHeader [] (List.intercalate (ascii "; ")
        ([⟨ascii "a", ascii "1", false⟩, ⟨ascii "b", ascii "x; y=2", true⟩, ⟨ascii "c", [], false⟩,
          ⟨ascii "d", [], true⟩].map RenderedCookie.text)) false =
      (true, [(ascii "a", ascii "1"), (ascii "b", ascii "x; y=2"), (ascii "c", []),
        (ascii "d", [])]) ∧
    parseCookieHeader [] (makeSetCookieHeader (ascii "b") (ascii "x; y=2") (ascii "/a;b")
        (some 3600)) true = (true, [(ascii "b", ascii "x; y=2")]) :=
  ⟨cookie_round_trip.1 [⟨ascii "a", ascii "1", false⟩, ⟨ascii "b", ascii "x; y=2", true⟩,
      ⟨ascii "c", [], false⟩, ⟨ascii "d", [], true⟩] (by decide +kernel),
    cookie_round_trip.2 (ascii "b") (ascii "x; y=2") (ascii "/a;b") (some 3600) (by decide +kernel)
      (by decide +kernel) (by decide) (by decide) (by simp [sizeMod])⟩

/-- A path that is longer than a value may be is refused. -/
lemma parseCookieHeader_longPath {path : Bytes} (hpath : 34 ∉ path)
    (hlong : cookieValueMax < path.length) :
    (parseCookieHeader [] (makeSetCookieHeader (ascii "a") (ascii "b") path none) true).1 =
      false := by
  have hne : path ≠ [] := by
    rintro rfl
    exact absurd hlong (by decide)
  have htext : makeSetCookieHeader (ascii "a") (ascii "b") path none =
      ascii "a=\"b\"; Version=\"1\"; Path=\"" ++ (path ++ ascii "\"") := by
    rw [makeSetCookieHeader, if_pos hne]
    simp only [List.append_assoc, List.append_nil]
    rfl
  have hfront : scan (parseCookieChar true) { dict := [] }
      (ascii "a=\"b\"; Version=\"1\"; Path=\"" ++ (path ++ ascii "\"")) =
        scan (parseCookieChar true) ⟨.cookieParseValue, ascii "Path", [], 34,
          [(ascii "a", ascii "b")]⟩ (path ++ ascii "\"") := rfl
  have hscan := scan_collect_full (parseCookieChar true)
    (fun acc => (⟨.cookieParseValue, ascii "Path", acc, 34, [(ascii "a", ascii "b")]⟩ :
      CookieParse)) cookieValueMax (P := fun c => c ≠ 34) (b := false) (r := ())
    (fun acc c hc hlt => by simp [parseCookieChar, hc, not_le.2 hlt])
    (fun acc c hc hfull => by simp [parseCookieChar, hc, hfull])
    (fun c hc hquote => hpath (hquote ▸ hc)) (a := []) (Nat.zero_le _)
    (by rwa [List.length_nil, Nat.zero_add]) (ascii "\"")
  rw [parseCookieHeader, htext, hfront, hscan]

/-- A path with a quote in it ends early, and what is behind it is read as a second cookie; a path
that is too long is refused. -/
theorem not_cookie_round_trip :
    (¬ ∀ (name value path : Bytes) (maxAge : Option ℕ), IsCookieName name true →
      IsQuotedValue value → path.length ≤ cookieValueMax → (∀ n ∈ maxAge, n < sizeMod) →
      parseCookieHeader [] (makeSetCookieHeader name value path maxAge) true =
        (true, [(name, value)])) ∧
    ¬ ∀ (name value path : Bytes) (maxAge : Option ℕ), IsCookieName name true →
      IsQuotedValue value → 34 ∉ path → (∀ n ∈ maxAge, n < sizeMod) →
      parseCookieHeader [] (makeSetCookieHeader name value path maxAge) true =
        (true, [(name, value)]) := by
  have hname : IsCookieName (ascii "a") true := ⟨by decide, by decide, by decide⟩
  have hvalue : IsQuotedValue (ascii "b") := ⟨by decide, by decide, by decide⟩
  constructor
  · intro h
    have hround := h (ascii "a") (ascii "b") (ascii "/\";c=d") none hname hvalue (by decide)
      (by simp)
    exact absurd hround (by decide)
  · intro h
    have hpath : 34 ∉ List.replicate (cookieValueMax + 1) (97 : Byte) := fun hmem =>
      absurd (List.eq_of_mem_replicate hmem) (by decide)
    have hround := congrArg Prod.fst (h (ascii "a") (ascii "b")
      (List.replicate (cookieValueMax + 1) 97) none hname hvalue hpath (by simp))
    rw [parseCookieHeader_longPath hpath (by rw [List.length_replicate]; exact Nat.lt_succ_self _)]
      at hround
    cases hround

end PionCore.Net
