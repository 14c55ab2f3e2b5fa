/-
# Query strings are read back

What `make_query_string` writes is parsed by `parseURLEncoded` into the escaped names and values,
entry by entry, and `url_decode` gives back the dictionary that was written.
-/
import PionCore.Common.PionAlgorithms
import PionCore.Net.MessageEdits

namespace PionCore.Net

open PionCore.Lib

/-! ### Escaped characters -/

/-- The characters that one character is written as. -/
def escape (c : Byte) : Bytes :=
  if 32 < c ∧ c < 127 ∧ c ∉ urlEscaped then [c]
  else [37, upperHexDigit (c.toNat / 16), upperHexDigit (c.toNat % 16)]

lemma urlEncode_eq_flatMap (s : Bytes) : urlEncode s = s.flatMap escape := rfl

/-- What holds of all bytes can be tried. -/
lemma forall_byte {P : Byte → Prop} (h : ∀ n < 256, P (UInt8.ofNat n)) (c : Byte) : P c := by
  have hc := h c.toNat c.toNat_lt
  rwa [UInt8.ofNat_toNat] at hc

/-- A character that neither separates nor ends anything in a query string. -/
def plainChar (c : Byte) : Bool :=
  ! isControl c && c ≠ 38 && c ≠ 61 && c ≠ 13 && c ≠ 10 && c ≠ 9

lemma escape_plain : ∀ c : Byte, (escape c).all plainChar = true :=
  forall_byte (by decide +kernel)

/-- The two models of `url_encode` agree. -/
lemma urlEncode_eq (s : Bytes) : urlEncode s = Common.urlEncode s := by
  have hchar : ∀ c : Byte, escape c = if Common.isUrlChar c = true then [c]
      else [37, Common.upperDigit (c / 16), Common.upperDigit (c % 16)] :=
    forall_byte (by decide +kernel)
  rw [urlEncode_eq_flatMap]
  induction s with
  | nil => rfl
  | cons c s ih =>
    rw [List.flatMap_cons, ih, hchar, Common.urlEncode]
    split_ifs <;> rfl

lemma urlDecode_urlEncode (s : Bytes) : Common.urlDecode (urlEncode s) = s := by
  rw [urlEncode_eq, Common.urlDecode_urlEncode]

lemma plain_of_mem_urlEncode {s : Bytes} {c : Byte} (h : c ∈ urlEncode s) : plainChar c = true := by
  rw [urlEncode_eq_flatMap] at h
  obtain ⟨d, -, hc⟩ := List.mem_flatMap.1 h
  exact List.all_eq_true.1 (escape_plain d) c hc

lemma urlEncode_ne_nil {s : Bytes} (h : s ≠ []) : urlEncode s ≠ [] := by
  rintro hnil
  refine h ?_
  rw [← urlDecode_urlEncode s, hnil]
  rfl

/-! ### The case of the letters -/

lemma escape_toLower : ∀ c : Byte, (escape c).map toLower = (escape (toLower c)).map toLower :=
  forall_byte (by decide +kernel)

/-- Names that are equal up to the case of their letters are escaped alike. -/
lemma map_toLower_urlEncode (s : Bytes) :
    (urlEncode s).map toLower = (s.map toLower).flatMap fun c => (escape c).map toLower := by
  rw [urlEncode_eq_flatMap, List.map_flatMap, List.flatMap_map]
  exact List.flatMap_congr fun c _ => escape_toLower c

/-- The decoder takes the digits of both cases. -/
lemma urlDecode_escape_toLower (c : Byte) (w : Bytes) :
    Common.urlDecode ((escape c).map toLower ++ w) = toLower c :: Common.urlDecode w := by
  have hchar : ∀ c : Byte, if 32 < c ∧ c < 127 ∧ c ∉ urlEscaped
      then toLower c ≠ 37 ∧ toLower c ≠ 43
      else Common.unescape (toLower (upperHexDigit (c.toNat / 16)))
        (toLower (upperHexDigit (c.toNat % 16))) = toLower c :=
    forall_byte (by decide +kernel)
  have hc := hchar c
  rw [escape]
  split_ifs at hc ⊢ with hplain
  · rw [List.map_cons, List.map_nil, List.singleton_append, Common.urlDecode_cons hc.1,
      if_neg hc.2]
  · show Common.urlDecode (37 :: toLower _ :: toLower _ :: w) = _
    rw [Common.urlDecode, hc]

lemma urlDecode_flatMap_toLower (s : Bytes) :
    Common.urlDecode (s.flatMap fun c => (escape c).map toLower) = s.map toLower := by
  induction s with
  | nil => rfl
  | cons c s ih => rw [List.flatMap_cons, urlDecode_escape_toLower, ih, List.map_cons]

/-- Escaping keeps those names apart that differ in more than the case of their letters. -/
lemma equalIgnoreCase_urlEncode (s t : Bytes) :
    equalIgnoreCase (urlEncode s) (urlEncode t) = equalIgnoreCase s t := by
  have htoLower : ∀ c : Byte, toLower (toLower c) = toLower c := forall_byte (by decide +kernel)
  have hback : ∀ s : Bytes, Common.urlDecode ((urlEncode s).map toLower) = s.map toLower := by
    intro s
    rw [map_toLower_urlEncode, urlDecode_flatMap_toLower, List.map_map]
    exact List.map_congr_left fun c _ => htoLower c
  rw [equalIgnoreCase, equalIgnoreCase, decide_eq_decide]
  constructor
  · intro h
    rw [← hback s, h, hback]
  · intro h
    rw [map_toLower_urlEncode, h, map_toLower_urlEncode]

/-! ### Parsing -/

/-- An entry that the parser has room for when it is escaped. -/
structure FitsQuery (e : Bytes × Bytes) : Prop where
  name : e.1 ≠ []
  nameMax : (urlEncode e.1).length ≤ queryNameMax
  valueMax : (urlEncode e.2).length ≤ queryValueMax

instance (e : Bytes × Bytes) : Decidable (FitsQuery e) :=
  decidable_of_iff (e.1 ≠ [] ∧ (urlEncode e.1).length ≤ queryNameMax ∧
      (urlEncode e.2).length ≤ queryValueMax)
    ⟨fun h => ⟨h.1, h.2.1, h.2.2⟩, fun h => ⟨h.name, h.nameMax, h.valueMax⟩⟩

/-- The entry with its name and value escaped. -/
def escapeEntry (e : Bytes × Bytes) : Bytes × Bytes := (urlEncode e.1, urlEncode e.2)

/-- The entry with its name and value decoded. -/
def decodeEntry (e : Bytes × Bytes) : Bytes × Bytes :=
  (Common.urlDecode e.1, Common.urlDecode e.2)

lemma decodeEntry_escapeEntry (e : Bytes × Bytes) : decodeEntry (escapeEntry e) = e := by
  rw [decodeEntry, escapeEntry, urlDecode_urlEncode, urlDecode_urlEncode]

/-- The text of an entry. -/
def entryText (e : Bytes × Bytes) : Bytes := urlEncode e.1 ++ [61] ++ urlEncode e.2

/-- An entry is read into the name and the value of the parser. -/
lemma scan_entry {e : Bytes × Bytes} (he : FitsQuery e) (d : StringDictionary) (rest : Bytes) :
    scan parseURLEncodedChar { dict := d } (entryText e ++ rest) =
      scan parseURLEncodedChar ⟨true, urlEncode e.1, urlEncode e.2, d⟩ rest := by
  have hname := scan_collect parseURLEncodedChar
    (fun acc => (⟨false, acc, [], d⟩ : QueryParse)) queryNameMax (P := fun c => plainChar c = true)
    (fun acc c hc hlt => ?_) (fun c hc => plain_of_mem_urlEncode (s := e.1) hc) (a := [])
    (by rw [List.length_nil, Nat.zero_add]; exact he.nameMax) ([61] ++ (urlEncode e.2 ++ rest))
  · have hvalue := scan_collect parseURLEncodedChar
      (fun acc => (⟨true, urlEncode e.1, acc, d⟩ : QueryParse)) queryValueMax
      (P := fun c => plainChar c = true)
      (fun acc c hc hlt => ?_) (fun c hc => plain_of_mem_urlEncode (s := e.2) hc) (a := [])
      (by rw [List.length_nil, Nat.zero_add]; exact he.valueMax) rest
    · rw [entryText, List.append_assoc, List.append_assoc]
      exact hname.trans hvalue
    · simp only [plainChar, Bool.and_eq_true, Bool.not_eq_true', decide_eq_true_eq] at hc
      obtain ⟨⟨⟨⟨⟨hctl, h38⟩, h61⟩, h13⟩, h10⟩, h9⟩ := hc
      simp [parseURLEncodedChar, h38, h13, h10, h9, hctl, not_le.2 hlt]
  · simp only [plainChar, Bool.and_eq_true, Bool.not_eq_true', decide_eq_true_eq] at hc
    obtain ⟨⟨⟨⟨⟨hctl, h38⟩, h61⟩, h13⟩, h10⟩, h9⟩ := hc
    simp [parseURLEncodedChar, h38, h61, h13, h10, h9, hctl, not_le.2 hlt]

/-- The entries are stored in the order in which they stand, escaped as they are. -/
lemma parseURLEncoded_entries {es : List (Bytes × Bytes)} (hes : ∀ e ∈ es, FitsQuery e)
    (d : StringDictionary) :
    parseURLEncoded d (List.intercalate [38] (es.map entryText)) =
      (true, d ++ es.map escapeEntry) := by
  induction es generalizing d with
  | nil => simp [parseURLEncoded]
  | cons e es ih =>
    have he := hes e List.mem_cons_self
    have hname : urlEncode e.1 ≠ [] := urlEncode_ne_nil he.name
    have hes' : ∀ e ∈ es, FitsQuery e := fun f hf => hes f (List.mem_cons_of_mem e hf)
    cases es with
    | nil =>
      have hscan := scan_entry he d []
      rw [List.append_nil, scan_nil] at hscan
      simp [parseURLEncoded, hscan, hname, escapeEntry, StringDictionary.insert, Multimap.insert]
    | cons f es =>
      have hand : scan parseURLEncodedChar { dict := d }
          (entryText e ++ (38 :: List.intercalate [38] ((f :: es).map entryText))) =
          scan parseURLEncodedChar { dict := d.insert (urlEncode e.1) (urlEncode e.2) }
            (List.intercalate [38] ((f :: es).map entryText)) := by
        have hstore : parseURLEncodedChar ⟨true, urlEncode e.1, urlEncode e.2, d⟩ 38 =
            .next { dict := d.insert (urlEncode e.1) (urlEncode e.2) } := by
          simp [parseURLEncodedChar, hname]
        rw [scan_entry he, scan_next hstore]
      have htext : List.intercalate [38] ((e :: f :: es).map entryText) =
          entryText e ++ (38 :: List.intercalate [38] ((f :: es).map entryText)) := by
        simp [List.intercalate]
      have hrest := ih hes' (d.insert (urlEncode e.1) (urlEncode e.2))
      rw [parseURLEncoded] at hrest ⊢
      rw [htext, hand]
      refine hrest.trans ?_
      simp [escapeEntry, StringDictionary.insert, Multimap.insert]

/-! ### The round trip -/

/-- A dictionary that is the escaped one of another is decoded to it. -/
lemma same_map_decodeEntry {d d' : StringDictionary}
    (h : StringDictionary.Same d' (d.map escapeEntry)) :
    StringDictionary.Same (d'.map decodeEntry) d := by
  have hmem : ∀ e ∈ d', escapeEntry (decodeEntry e) = e := by
    intro e he
    have he' : e ∈ StringDictionary.equalRange (d.map escapeEntry) e.1 := by
      rw [← h e.1]
      exact StringDictionary.mem_equalRange.2 ⟨he, equalIgnoreCase_self e.1⟩
    obtain ⟨f, -, rfl⟩ := List.mem_map.1 (StringDictionary.mem_equalRange.1 he').1
    rw [decodeEntry_escapeEntry]
  have hkey : ∀ (e : Bytes × Bytes) (k : Bytes),
      equalIgnoreCase (escapeEntry e).1 (urlEncode k) = equalIgnoreCase e.1 k := fun e k =>
    equalIgnoreCase_urlEncode e.1 k
  intro k
  calc StringDictionary.equalRange (d'.map decodeEntry) k
      = (d'.filter fun e => equalIgnoreCase (decodeEntry e).1 k).map decodeEntry := List.filter_map
    _ = (StringDictionary.equalRange d' (urlEncode k)).map decodeEntry := by
        refine congrArg (List.map decodeEntry) (List.filter_congr fun e he => ?_)
        rw [← hkey, hmem e he]
    _ = (StringDictionary.equalRange (d.map escapeEntry) (urlEncode k)).map decodeEntry := by
        rw [h]
    _ = ((d.filter fun e => equalIgnoreCase (escapeEntry e).1 (urlEncode k)).map
          escapeEntry).map decodeEntry := congrArg (List.map decodeEntry) List.filter_map
    _ = (StringDictionary.equalRange d k).map (decodeEntry ∘ escapeEntry) := by
        simp only [hkey, List.map_map]
        rfl
    _ = StringDictionary.equalRange d k := by
        rw [show decodeEntry ∘ escapeEntry = id from funext decodeEntry_escapeEntry, List.map_id]

/-- A dictionary with non-empty names is written as a query string, parsed and decoded: it comes
back as it was, in whatever order the two dictionaries are walked through. -/
theorem query_round_trip (ord ord' : HashOrder) (d : StringDictionary)
    (h : ∀ e ∈ d, FitsQuery e) :
    (parseURLEncoded [] (makeQueryString ord d)).1 = true ∧
      StringDictionary.Same
        ((ord'.walk (parseURLEncoded [] (makeQueryString ord d)).2).map decodeEntry) d := by
  have hwalk : ∀ e ∈ ord.walk d, FitsQuery e := fun e he =>
    h e ((ord.mem_walk equalIgnoreCase_self).1 he)
  have hparse : parseURLEncoded [] (makeQueryString ord d) =
      (true, (ord.walk d).map escapeEntry) := parseURLEncoded_entries hwalk []
  rw [hparse]
  refine ⟨rfl, fun k => ?_⟩
  have hsame : StringDictionary.Same (ord'.walk ((ord.walk d).map escapeEntry))
      ((ord.walk d).map escapeEntry) := fun k => ord'.equalRange_walk k _
  exact (same_map_decodeEntry hsame k).trans (ord.equalRange_walk k d)

/-- Two equal names, an empty value and a value full of separators. -/
theorem query_round_trip_of_separators :
    (parseURLEncoded [] (makeQueryString .insertion
      [(ascii "a b", ascii "1&2=%3D+"), (ascii "A b", []), (ascii "a b", [0, 255, 13, 10])])).1 =
        true :=
  (query_round_trip .insertion .insertion
    [(ascii "a b", ascii "1&2=%3D+"), (ascii "A b", []), (ascii "a b", [0, 255, 13, 10])]
    (by decide +kernel)).1

end PionCore.Net
