/-
# Forwarded addresses

`HTTPParser::parseForwardedFor` searches a header for the first address that is not private.
Whether an address is private is seen of its text, so a number that is written with a leading zero
is not the number it stands for.
-/
import PionCore.Lib.Ascii
import PionCore.Lib.Regex

namespace PionCore.Net

open PionCore.Lib

namespace HTTPParser

/-- `[0-9]{1,3}` -/
def addressPartRx : Regex Byte := .rep (.letter isDigit) 1 3

def dotRx : Regex Byte := .letter (· == 46)

/-- `[0-9]{1,3}\.[0-9]{1,3}\.[0-9]{1,3}\.[0-9]{1,3}` -/
def ipv4AddrRx : Regex Byte :=
  .cat addressPartRx (.cat dotRx (.cat addressPartRx (.cat dotRx (.cat addressPartRx
    (.cat dotRx addressPartRx)))))

/-- A letter in a range. -/
def rangeRx (first last : Byte) : Regex Byte := .letter fun c => first ≤ c && c ≤ last

/-- `10\.[0-9]{1,3}|127\.[0-9]{1,3}|192\.168|172\.1[6-9]|172\.2[0-9]|172\.3[0-1]` -/
def privateNetworkRx : Regex Byte :=
  .alt (.before (ascii "10.") addressPartRx)
    (.alt (.before (ascii "127.") addressPartRx)
      (.alt (.before (ascii "192.168") .empty)
        (.alt (.before (ascii "172.1") (rangeRx 54 57))
          (.alt (.before (ascii "172.2") (rangeRx 48 57))
            (.before (ascii "172.3") (rangeRx 48 49))))))

/-- `privateNetworkRx` and `\.[0-9]{1,3}\.[0-9]{1,3}` -/
def privateNetRx : Regex Byte :=
  .cat privateNetworkRx (.cat dotRx (.cat addressPartRx (.cat dotRx addressPartRx)))

/-- An address that is found is not empty. -/
lemma search_shorter {header ip rest : Bytes} (h : ipv4AddrRx.search header = some (ip, rest)) :
    rest.length < header.length := by
  obtain ⟨v, rfl, hmatch⟩ := Regex.search_eq_some h
  obtain ⟨first, w, rfl, hfirst, -⟩ := hmatch
  have hne := (Regex.matches_rep_letter.1 hfirst).1
  simp only [List.length_append]
  omega

/-- The loop of `parseForwardedFor`, from a position on: what it returns, and the address. -/
def searchLoop (publicIp : Bytes) (header : Bytes) : Bool × Bytes :=
  match _h : ipv4AddrRx.search header with
  | none => (false, publicIp)
  | some (ip, rest) =>
      if ! privateNetRx.fullMatch ip then (true, ip) else searchLoop publicIp rest
termination_by header.length
decreasing_by exact search_shorter (by assumption)

def parseForwardedFor (header publicIp : Bytes) : Bool × Bytes :=
  if header = [] then (false, publicIp) else searchLoop publicIp header

/-! ### Headers -/

/-- A number of one to three digits. -/
structure AddressPart where
  digits : Bytes
  isDigit : ∀ c ∈ digits, isDigit c = true
  pos : 1 ≤ digits.length
  le : digits.length ≤ 3

namespace AddressPart

def value (n : AddressPart) : ℕ := readNumeral 10 n.digits

/-- Written without leading zeros. -/
def isPlain (n : AddressPart) : Bool := n.digits = numeral 10 n.value

end AddressPart

structure DottedQuad where
  first : AddressPart
  second : AddressPart
  third : AddressPart
  fourth : AddressPart

namespace DottedQuad

def text (q : DottedQuad) : Bytes :=
  q.first.digits ++ 46 :: (q.second.digits ++ 46 :: (q.third.digits ++ 46 :: q.fourth.digits))

/-- In 10/8, 127/8, 172.16/12 or 192.168/16. -/
def isPrivate (q : DottedQuad) : Bool :=
  q.first.value = 10 ∨ q.first.value = 127 ∨
    q.first.value = 172 ∧ 16 ≤ q.second.value ∧ q.second.value ≤ 31 ∨
    q.first.value = 192 ∧ q.second.value = 168

/-- The numbers that decide whether an address is private are written without leading zeros. -/
def isPlain (q : DottedQuad) : Bool :=
  q.first.isPlain && (q.second.isPlain || q.first.value = 10 || q.first.value = 127)

end DottedQuad

/-- An entry of a header: a text without digits, or an address with texts without digits around
it. -/
inductive ForwardedEntry where
  | text (t : Bytes) (ht : ∀ c ∈ t, isDigit c = false)
  | quad (left : Bytes) (q : DottedQuad) (right : Bytes) (hleft : ∀ c ∈ left, isDigit c = false)
      (hright : ∀ c ∈ right, isDigit c = false)

namespace ForwardedEntry

def bytes : ForwardedEntry → Bytes
  | .text t _ => t
  | .quad left q right _ _ => left ++ (q.text ++ right)

def quad? : ForwardedEntry → Option DottedQuad
  | .text _ _ => none
  | .quad _ q _ _ _ => some q

end ForwardedEntry

/-- A comma-separated list. -/
def forwardedHeader : List ForwardedEntry → Bytes
  | [] => []
  | [e] => e.bytes
  | e :: es => e.bytes ++ 44 :: forwardedHeader es

/-- The first address that is not private, in the sense of `private?`. -/
def firstPublic (private? : DottedQuad → Bool) (entries : List ForwardedEntry) (publicIp : Bytes) :
    Bool × Bytes :=
  match (entries.filterMap ForwardedEntry.quad?).find? (! private? ·) with
  | some q => (true, q.text)
  | none => (false, publicIp)

/-! ### The regular expressions -/

section Regexes

variable {n n' : AddressPart} {q : DottedQuad} {s t u : Bytes}

lemma AddressPart.not_dot (n : AddressPart) : 46 ∉ n.digits := by
  intro hmem
  exact absurd (n.isDigit 46 hmem) (by decide)

lemma not_dot_of_isDigit (c : Byte) (hc : isDigit c = true) : (c == 46) = false := by
  rw [beq_eq_false_iff_ne]
  rintro rfl
  exact absurd hc (by decide)

lemma matches_addressPart : addressPartRx.Matches t ↔ ∃ n : AddressPart, t = n.digits := by
  rw [addressPartRx, Regex.matches_rep_letter]
  constructor
  · rintro ⟨hpos, hle, hdigit⟩
    exact ⟨⟨t, hdigit, hpos, hle⟩, rfl⟩
  · rintro ⟨n, rfl⟩
    exact ⟨n.pos, n.le, n.isDigit⟩

lemma ends_addressPart (n : AddressPart) (hs : ∀ c ∈ s.head?, isDigit c = false) :
    ∃ us, addressPartRx.ends (n.digits ++ s) = s :: us := by
  obtain ⟨us, hus, -⟩ := Regex.ends_rep_letter n.pos n.le n.isDigit hs
  exact ⟨us, hus⟩

lemma ends_addressPart_dot (n : AddressPart) {r : Regex Byte} :
    (Regex.cat addressPartRx (.cat dotRx r)).ends (n.digits ++ 46 :: s) = r.ends s :=
  Regex.ends_rep_sep n.pos n.le n.isDigit not_dot_of_isDigit rfl

/-- An address is found as a whole. -/
lemma search_quad (q : DottedQuad) (hs : ∀ c ∈ s.head?, isDigit c = false) :
    ipv4AddrRx.search (q.text ++ s) = some (q.text, s) := by
  obtain ⟨us, hus⟩ := ends_addressPart q.fourth hs
  refine Regex.search_of_ends (?_ : _ = s :: us)
  rw [DottedQuad.text, ipv4AddrRx]
  simp only [List.append_assoc, List.cons_append]
  rw [ends_addressPart_dot, ends_addressPart_dot, ends_addressPart_dot, hus]

/-- No address begins with a letter that is no digit. -/
lemma ends_of_not_isDigit {c : Byte} (hc : isDigit c = false) : ipv4AddrRx.ends (c :: s) = [] := by
  rw [ipv4AddrRx, Regex.ends]
  have hnone : addressPartRx.ends (c :: s) = [] := by
    simp only [addressPartRx, Regex.ends, Regex.repeated, hc, Bool.false_eq_true, if_false]
    rfl
  rw [hnone]
  rfl

lemma search_skip (hs : ∀ c ∈ s, isDigit c = false) :
    ipv4AddrRx.search (s ++ t) = ipv4AddrRx.search t :=
  Regex.search_skip fun c hc _ => ends_of_not_isDigit (hs c hc)

lemma search_nil : ipv4AddrRx.search [] = none := Regex.search_nil rfl

/-- Two texts end with the same number. -/
lemma split_last (ht : 46 ∉ t) (hu : 46 ∉ u) {s s' : Bytes} (h : s ++ 46 :: t = s' ++ 46 :: u) :
    s = s' ∧ t = u := by
  rcases List.append_eq_append_iff.1 h with ⟨v, rfl, hv⟩ | ⟨v, rfl, hv⟩
  · cases v with
    | nil => exact ⟨(List.append_nil s).symm, (List.cons.inj hv).2⟩
    | cons c v =>
      rw [List.cons_append, List.cons.injEq] at hv
      exact absurd (by rw [hv.2]; simp) ht
  · cases v with
    | nil => exact ⟨List.append_nil s', (List.cons.inj hv).2.symm⟩
    | cons c v =>
      rw [List.cons_append, List.cons.injEq] at hv
      exact absurd (by rw [hv.2]; simp) hu

/-- An address is in a private network if its first two numbers are. -/
lemma matches_privateNet : privateNetRx.Matches q.text ↔
    privateNetworkRx.Matches (q.first.digits ++ 46 :: q.second.digits) := by
  constructor
  · rintro ⟨w, _, htext, hw, _, _, rfl, ⟨d, rfl, hd⟩, _, _, rfl, hthird, _, _, rfl, ⟨e, rfl, he⟩,
      hfourth⟩
    obtain rfl := beq_iff_eq.1 hd
    obtain rfl := beq_iff_eq.1 he
    obtain ⟨third, rfl⟩ := matches_addressPart.1 hthird
    obtain ⟨fourth, rfl⟩ := matches_addressPart.1 hfourth
    have hsplit : (q.first.digits ++ 46 :: q.second.digits ++ 46 :: q.third.digits) ++
        46 :: q.fourth.digits = (w ++ 46 :: third.digits) ++ 46 :: fourth.digits := by
      simpa [DottedQuad.text] using htext
    have hfirst := (split_last q.fourth.not_dot fourth.not_dot hsplit).1
    rwa [(split_last q.third.not_dot third.not_dot hfirst).1]
  · intro h
    refine ⟨_, 46 :: (q.third.digits ++ 46 :: q.fourth.digits), ?_, h, [46], _, rfl, ⟨46, rfl, rfl⟩,
      q.third.digits, _, rfl, matches_addressPart.2 ⟨_, rfl⟩, [46], _, rfl, ⟨46, rfl, rfl⟩,
      matches_addressPart.2 ⟨_, rfl⟩⟩
    simp [DottedQuad.text]

/-- A number is written like `k` if and only if it is `k`, without leading zeros. -/
lemma digits_eq_iff {k : ℕ} : n.digits = numeral 10 k ↔ n.isPlain = true ∧ n.value = k := by
  rw [AddressPart.isPlain, decide_eq_true_iff]
  constructor
  · intro h
    have hvalue : n.value = k := by
      rw [AddressPart.value, h]
      exact readNumeral_numeral (by omega) (by omega) k
    exact ⟨by rw [hvalue, h], hvalue⟩
  · rintro ⟨hplain, rfl⟩
    exact hplain

/-- The first number, and any second number. -/
lemma matches_before_part {word : Bytes} (hword : 46 ∉ word) :
    (Regex.before (word ++ [46]) addressPartRx).Matches (n.digits ++ 46 :: n'.digits) ↔
      n.digits = word := by
  rw [Regex.matches_before]
  constructor
  · rintro ⟨u, hu, hmatch⟩
    obtain ⟨m, rfl⟩ := matches_addressPart.1 hmatch
    rw [List.append_assoc, List.singleton_append] at hu
    exact (split_last n'.not_dot m.not_dot hu).1
  · rintro rfl
    exact ⟨n'.digits, by simp, matches_addressPart.2 ⟨n', rfl⟩⟩

/-- Two digits. -/
lemma numeral_two {k d : ℕ} (hk : 0 < k) (hk' : k < 10) (hd : d < 10) :
    numeral 10 (10 * k + d) = [digitChar k, digitChar d] := by
  have hne : 10 * k + d ≠ 0 := by omega
  have hdigits : Nat.digits 10 (10 * k + d) = [d, k] := by
    rw [Nat.add_comm, Nat.digits_add 10 (by omega) d k hd (.inr hk.ne'),
      Nat.digits_of_lt 10 k hk.ne' hk']
  rw [numeral, if_neg hne, hdigits]
  rfl

lemma toNat_digitChar {d : ℕ} (hd : d < 10) : (digitChar d).toNat = 48 + d := by
  rw [digitChar, if_pos hd, UInt8.toNat_ofNat_of_lt']
  rw [UInt8.size]
  omega

/-- A range of digits. -/
lemma matches_rangeRx {first last : ℕ} (hfirst : first < 10) (hlast : last < 10) :
    (rangeRx (digitChar first) (digitChar last)).Matches t ↔
      ∃ d, first ≤ d ∧ d ≤ last ∧ t = [digitChar d] := by
  constructor
  · rintro ⟨c, rfl, hc⟩
    rw [Bool.and_eq_true, decide_eq_true_iff, decide_eq_true_iff, UInt8.le_iff_toNat_le,
      UInt8.le_iff_toNat_le, toNat_digitChar hfirst, toNat_digitChar hlast] at hc
    refine ⟨c.toNat - 48, by omega, by omega, ?_⟩
    have hc' : c = digitChar (c.toNat - 48) := by
      rw [← UInt8.toNat_inj, toNat_digitChar (by omega)]
      omega
    rw [← hc']
  · rintro ⟨d, hle, hd, rfl⟩
    refine ⟨_, rfl, ?_⟩
    rw [Bool.and_eq_true, decide_eq_true_iff, decide_eq_true_iff, UInt8.le_iff_toNat_le,
      UInt8.le_iff_toNat_le, toNat_digitChar hlast, toNat_digitChar (by omega),
      toNat_digitChar (by omega)]
    omega

/-- The first number, and a second one between two others. -/
lemma matches_before_range {word : Bytes} {k first last : ℕ} (hword : 46 ∉ word) (hk : 0 < k)
    (hk' : k < 10) (hfirst : first < 10) (hlast : last < 10) :
    (Regex.before (word ++ [46, digitChar k]) (rangeRx (digitChar first) (digitChar last))).Matches
        (n.digits ++ 46 :: n'.digits) ↔
      n.digits = word ∧ n'.isPlain = true ∧ 10 * k + first ≤ n'.value ∧
        n'.value ≤ 10 * k + last := by
  rw [Regex.matches_before]
  constructor
  · rintro ⟨u, hu, hmatch⟩
    obtain ⟨d, hd, hd', rfl⟩ := (matches_rangeRx hfirst hlast).1 hmatch
    have hdigits : n.digits ++ 46 :: n'.digits = word ++ 46 :: numeral 10 (10 * k + d) := by
      rw [hu, numeral_two hk hk' (by omega)]
      simp
    have hnot : 46 ∉ numeral 10 (10 * k + d) := fun hmem =>
      absurd (isDigit_of_mem_numeral hmem) (by decide)
    obtain ⟨hword', hsecond⟩ := split_last n'.not_dot hnot hdigits
    obtain ⟨hplain, hvalue⟩ := digits_eq_iff.1 hsecond
    exact ⟨hword', hplain, by omega, by omega⟩
  · rintro ⟨rfl, hplain, hle, hle'⟩
    obtain ⟨d, hd⟩ := Nat.exists_eq_add_of_le (show 10 * k ≤ n'.value by omega)
    have hdigits := digits_eq_iff.2 ⟨hplain, hd⟩
    refine ⟨[digitChar d], ?_, (matches_rangeRx hfirst hlast).2 ⟨d, by omega, by omega, rfl⟩⟩
    rw [hdigits, numeral_two hk hk' (by omega)]
    simp

/-- The regular expression sees that an address is private if the numbers that decide it are written
without leading zeros. -/
lemma fullMatch_privateNet (q : DottedQuad) :
    privateNetRx.fullMatch q.text = (q.isPlain && q.isPrivate) := by
  have hten : (Regex.before (ascii "10.") addressPartRx).Matches
      (q.first.digits ++ 46 :: q.second.digits) ↔ q.first.isPlain = true ∧ q.first.value = 10 := by
    rw [← digits_eq_iff, show numeral 10 10 = ascii "10" by decide +kernel]
    have hnot : 46 ∉ ascii "10" := by decide
    exact matches_before_part hnot
  have hloop : (Regex.before (ascii "127.") addressPartRx).Matches
      (q.first.digits ++ 46 :: q.second.digits) ↔ q.first.isPlain = true ∧ q.first.value = 127 := by
    rw [← digits_eq_iff, show numeral 10 127 = ascii "127" by decide +kernel]
    have hnot : 46 ∉ ascii "127" := by decide
    exact matches_before_part hnot
  have hlocal : (Regex.before (ascii "192.168") .empty).Matches
      (q.first.digits ++ 46 :: q.second.digits) ↔
        (q.first.isPlain = true ∧ q.first.value = 192) ∧
          q.second.isPlain = true ∧ q.second.value = 168 := by
    rw [← digits_eq_iff, ← digits_eq_iff, show numeral 10 192 = ascii "192" by decide +kernel,
      show numeral 10 168 = ascii "168" by decide +kernel, Regex.matches_before]
    constructor
    · rintro ⟨_, htext, rfl⟩
      exact split_last q.second.not_dot (by decide : 46 ∉ ascii "168") htext
    · rintro ⟨hfirst, hsecond⟩
      exact ⟨[], by rw [hfirst, hsecond]; rfl, rfl⟩
  have hrange (word : Bytes) (k first last : ℕ) (hword : word = ascii "172." ++ [digitChar k])
      (hk : 0 < k) (hk' : k < 10) (hfirst : first < 10) (hlast : last < 10) :
      (Regex.before word (rangeRx (digitChar first) (digitChar last))).Matches
          (q.first.digits ++ 46 :: q.second.digits) ↔
        (q.first.isPlain = true ∧ q.first.value = 172) ∧ q.second.isPlain = true ∧
          10 * k + first ≤ q.second.value ∧ q.second.value ≤ 10 * k + last := by
    rw [hword, ← digits_eq_iff, show numeral 10 172 = ascii "172" by decide +kernel]
    have hnot : 46 ∉ ascii "172" := by decide
    exact matches_before_range hnot hk hk' hfirst hlast
  have hteens := hrange (ascii "172.1") 1 6 9 (by decide) (by omega) (by omega) (by omega)
    (by omega)
  have htwenties := hrange (ascii "172.2") 2 0 9 (by decide) (by omega) (by omega) (by omega)
    (by omega)
  have hthirties := hrange (ascii "172.3") 3 0 1 (by decide) (by omega) (by omega) (by omega)
    (by omega)
  rw [Bool.eq_iff_iff, Regex.fullMatch_iff, matches_privateNet]
  refine (or_congr hten (or_congr hloop (or_congr hlocal (or_congr hteens
    (or_congr htwenties hthirties))))).trans ?_
  simp only [DottedQuad.isPlain, DottedQuad.isPrivate, Bool.and_eq_true, Bool.or_eq_true,
    decide_eq_true_iff]
  cases q.first.isPlain with
  | false => simp
  | true =>
    cases q.second.isPlain with
    | false =>
      simp only [true_and, Bool.false_eq_true, false_and, and_false, or_false, false_or]
      omega
    | true =>
      simp only [true_and, true_or]
      omega

end Regexes

/-! ### The loop -/

lemma searchLoop_none {header publicIp : Bytes} (h : ipv4AddrRx.search header = none) :
    searchLoop publicIp header = (false, publicIp) := by
  rw [searchLoop]
  split
  · rfl
  · simp_all

lemma searchLoop_some {header publicIp ip rest : Bytes}
    (h : ipv4AddrRx.search header = some (ip, rest)) :
    searchLoop publicIp header =
      if ! privateNetRx.fullMatch ip then (true, ip) else searchLoop publicIp rest := by
  rw [searchLoop]
  split
  · simp_all
  · simp_all

/-- A text without digits is skipped. -/
lemma searchLoop_skip {publicIp s t : Bytes} (hs : ∀ c ∈ s, isDigit c = false) :
    searchLoop publicIp (s ++ t) = searchLoop publicIp t := by
  have hskip : ipv4AddrRx.search (s ++ t) = ipv4AddrRx.search t := search_skip hs
  cases hsearch : ipv4AddrRx.search t with
  | none => rw [searchLoop_none hsearch, searchLoop_none (hskip.trans hsearch)]
  | some found =>
    obtain ⟨ip, rest⟩ := found
    rw [searchLoop_some hsearch, searchLoop_some (hskip.trans hsearch)]

/-- An address is returned if it is not private. -/
lemma searchLoop_quad {publicIp s : Bytes} (q : DottedQuad)
    (hs : ∀ c ∈ s.head?, isDigit c = false) :
    searchLoop publicIp (q.text ++ s) =
      if ! (q.isPlain && q.isPrivate) then (true, q.text) else searchLoop publicIp s := by
  rw [searchLoop_some (search_quad q hs), fullMatch_privateNet]

lemma searchLoop_nil {publicIp : Bytes} : searchLoop publicIp [] = (false, publicIp) :=
  searchLoop_none search_nil

/-- What follows an entry. -/
def entriesAfter (entries : List ForwardedEntry) : Bytes :=
  if entries = [] then [] else 44 :: forwardedHeader entries

lemma forwardedHeader_cons {e : ForwardedEntry} {entries : List ForwardedEntry} :
    forwardedHeader (e :: entries) = e.bytes ++ entriesAfter entries := by
  cases entries with
  | nil => exact (List.append_nil _).symm
  | cons e' entries => rfl

lemma searchLoop_entriesAfter {publicIp : Bytes} {entries : List ForwardedEntry} :
    searchLoop publicIp (entriesAfter entries) = searchLoop publicIp (forwardedHeader entries) := by
  cases entries with
  | nil => rfl
  | cons e entries =>
    have hcomma : ∀ c ∈ ([44] : Bytes), isDigit c = false := by
      intro c hc
      rw [List.mem_singleton.1 hc]
      decide
    exact searchLoop_skip (t := forwardedHeader (e :: entries)) hcomma

/-- An address ends in front of what follows. -/
lemma head_entriesAfter {right : Bytes} (hright : ∀ c ∈ right, isDigit c = false)
    {entries : List ForwardedEntry} : ∀ c ∈ (right ++ entriesAfter entries).head?,
      isDigit c = false := by
  intro c hc
  cases right with
  | cons d right =>
    obtain rfl : d = c := Option.some.inj hc
    exact hright d List.mem_cons_self
  | nil =>
    cases entries with
    | nil => cases hc
    | cons e entries =>
      obtain rfl : 44 = c := Option.some.inj hc
      decide

lemma firstPublic_quad {private? : DottedQuad → Bool} {left right publicIp : Bytes} {q : DottedQuad}
    {hleft : ∀ c ∈ left, isDigit c = false} {hright : ∀ c ∈ right, isDigit c = false}
    {entries : List ForwardedEntry} :
    firstPublic private? (.quad left q right hleft hright :: entries) publicIp =
      if ! private? q then (true, q.text) else firstPublic private? entries publicIp := by
  have hquads : (ForwardedEntry.quad left q right hleft hright :: entries).filterMap
      ForwardedEntry.quad? = q :: entries.filterMap ForwardedEntry.quad? := rfl
  rw [firstPublic, firstPublic, hquads, List.find?_cons]
  cases private? q <;> rfl

lemma searchLoop_header (publicIp : Bytes) (entries : List ForwardedEntry) :
    searchLoop publicIp (forwardedHeader entries) =
      firstPublic (fun q => q.isPlain && q.isPrivate) entries publicIp := by
  induction entries with
  | nil => exact searchLoop_nil
  | cons e entries ih =>
    rw [forwardedHeader_cons]
    cases e with
    | text t ht =>
      rw [ForwardedEntry.bytes, searchLoop_skip ht, searchLoop_entriesAfter, ih]
      rfl
    | quad left q right hleft hright =>
      rw [ForwardedEntry.bytes, List.append_assoc, List.append_assoc, searchLoop_skip hleft,
        searchLoop_quad q (head_entriesAfter hright), searchLoop_skip hright,
        searchLoop_entriesAfter, ih, firstPublic_quad]

/-- The first address of a list that is not private is returned, if there is one; an address counts
as private if it is in a private range, and the numbers that decide this are written without leading
zeros. -/
theorem parseForwardedFor_eq (entries : List ForwardedEntry) (publicIp : Bytes) :
    parseForwardedFor (forwardedHeader entries) publicIp =
      firstPublic (fun q => q.isPlain && q.isPrivate) entries publicIp := by
  rw [parseForwardedFor, ← searchLoop_header]
  split_ifs with hempty
  · rw [hempty, searchLoop_nil]
  · rfl

/-- `010.0.0.1` -/
def leadingZero : DottedQuad where
  first := ⟨[48, 49, 48], List.all_eq_true.1 (by decide), by decide, by decide⟩
  second := ⟨[48], List.all_eq_true.1 (by decide), by decide, by decide⟩
  third := ⟨[48], List.all_eq_true.1 (by decide), by decide, by decide⟩
  fourth := ⟨[49], List.all_eq_true.1 (by decide), by decide, by decide⟩

/-- An address in 10/8 is returned as public. -/
theorem parseForwardedFor_leadingZero :
    let entries := [ForwardedEntry.quad [] leadingZero [] (by simp) (by simp)]
    parseForwardedFor (forwardedHeader entries) [] = (true, leadingZero.text) ∧
      firstPublic DottedQuad.isPrivate entries [] = (false, []) := by
  intro entries
  have hempty : forwardedHeader entries ≠ [] := by decide
  refine ⟨?_, by decide +kernel⟩
  rw [parseForwardedFor, if_neg hempty, searchLoop_header]
  decide +kernel

end HTTPParser

end PionCore.Net
