/-
# Events in queries

`Query::bindEvent` binds the first values of the terms of a field map to the columns of a query, and
`fetchEvent` sets the terms of an event from the columns.  A missing value is bound as `NULL`, but
fetching a column always sets a value; a string is bound up to its first zero byte, and a compressed
blob that begins with one is bound as an empty blob (`fetchesBack_iff`).
-/
import PionCore.Lib.Ascii
import PionCore.Platform.Event
import PionCore.Platform.LogCodec

namespace PionCore.Platform

open PionCore.Lib SortedMultimap

/-! ### The values of a variant -/

namespace ParameterValue

variable {φ δ χ θ : Type*}

/-! `boost::get`, which throws if the variant has another type. -/

@[simp] def getInt32 : ParameterValue φ δ χ θ → Option Int32
  | int32 v => some v
  | _ => none

@[simp] def getUInt32 : ParameterValue φ δ χ θ → Option UInt32
  | uint32 v => some v
  | _ => none

@[simp] def getInt64 : ParameterValue φ δ χ θ → Option Int64
  | int64 v => some v
  | _ => none

@[simp] def getUInt64 : ParameterValue φ δ χ θ → Option UInt64
  | uint64 v => some v
  | _ => none

@[simp] def getFloat : ParameterValue φ δ χ θ → Option φ
  | float v => some v
  | _ => none

@[simp] def getDouble : ParameterValue φ δ χ θ → Option δ
  | double v => some v
  | _ => none

@[simp] def getLongDouble : ParameterValue φ δ χ θ → Option χ
  | longDouble v => some v
  | _ => none

@[simp] def getDateTime : ParameterValue φ δ χ θ → Option θ
  | dateTime v => some v
  | _ => none

@[simp] def getBlob : ParameterValue φ δ χ θ → Option Bytes
  | blob v => some v
  | _ => none

end ParameterValue

/-! ### Queries -/

/-- What is bound to a column. -/
inductive ColumnValue (φ δ χ θ : Type*) where
  | null
  | int (v : Int32)
  | uint (v : UInt32)
  | bigInt (v : Int64)
  | uBigInt (v : UInt64)
  | float (v : φ)
  | double (v : δ)
  | longDouble (v : χ)
  | string (v : Bytes)
  | blob (v : Bytes)
  | dateTime (v : θ)
  | date (v : θ)
  | time (v : θ)

/-- The functions of a database that fetch a column: exactly what was bound is fetched again.  What
they give for a column that is `NULL`, if they do not throw, is left open. -/
structure Query (φ δ χ θ : Type*) where
  fetchInt : ColumnValue φ δ χ θ → Option Int32
  fetchUInt : ColumnValue φ δ χ θ → Option UInt32
  fetchBigInt : ColumnValue φ δ χ θ → Option Int64
  fetchUBigInt : ColumnValue φ δ χ θ → Option UInt64
  fetchFloat : ColumnValue φ δ χ θ → Option φ
  fetchDouble : ColumnValue φ δ χ θ → Option δ
  fetchLongDouble : ColumnValue φ δ χ θ → Option χ
  fetchString : ColumnValue φ δ χ θ → Option Bytes
  fetchBlob : ColumnValue φ δ χ θ → Option Bytes
  fetchDateTime : ColumnValue φ δ χ θ → Option θ
  fetchDate : ColumnValue φ δ χ θ → Option θ
  fetchTime : ColumnValue φ δ χ θ → Option θ
  fetchInt_int : ∀ v, fetchInt (.int v) = some v
  fetchUInt_uint : ∀ v, fetchUInt (.uint v) = some v
  fetchBigInt_bigInt : ∀ v, fetchBigInt (.bigInt v) = some v
  fetchUBigInt_uBigInt : ∀ v, fetchUBigInt (.uBigInt v) = some v
  fetchFloat_float : ∀ v, fetchFloat (.float v) = some v
  fetchDouble_double : ∀ v, fetchDouble (.double v) = some v
  fetchLongDouble_longDouble : ∀ v, fetchLongDouble (.longDouble v) = some v
  fetchString_string : ∀ v, fetchString (.string v) = some v
  fetchBlob_blob : ∀ v, fetchBlob (.blob v) = some v
  fetchDateTime_dateTime : ∀ v, fetchDateTime (.dateTime v) = some v
  fetchDate_date : ∀ v, fetchDate (.date v) = some v
  fetchTime_time : ∀ v, fetchTime (.time v) = some v

attribute [simp] Query.fetchInt_int Query.fetchUInt_uint Query.fetchBigInt_bigInt
  Query.fetchUBigInt_uBigInt Query.fetchFloat_float Query.fetchDouble_double
  Query.fetchLongDouble_longDouble Query.fetchString_string Query.fetchBlob_blob
  Query.fetchDateTime_dateTime Query.fetchDate_date Query.fetchTime_time

/-- The filters of zlib: the compressed form of a text has a header, and the text is found again. -/
structure ZLib where
  compress : Bytes → Bytes
  decompress : Bytes → Option Bytes
  compress_ne_nil : ∀ s, compress s ≠ []
  decompress_compress : ∀ s, decompress (compress s) = some s

/-- A column: its name, and the term that it has. -/
abbrev FieldData : Type := Bytes × Term

namespace Query

variable {φ δ χ θ : Type*} (conv : Conversions φ δ χ θ) (z : ZLib) (q : Query φ δ χ θ)

/-- `bindZBlob`: what is bound as a blob. -/
def zblob (value : Bytes) : Bytes :=
  match value with
  | [] => []
  | b :: _ => if b = 0 then [] else z.compress value

/-- `fetchZBlob`. -/
def fetchZBlob (c : ColumnValue φ δ χ θ) : Option Bytes :=
  (q.fetchBlob c).bind fun temp => if temp = [] then some temp else z.decompress temp

/-- What `bindEvent` binds for a term with a value. -/
def bindValue (type : DataType) (value : ParameterValue φ δ χ θ) : Option (ColumnValue φ δ χ θ) :=
  match type with
  | .null | .object => some .null
  | .int8 | .int16 | .int32 => value.getInt32.map .int
  | .int64 => value.getInt64.map .bigInt
  | .uint8 | .uint16 | .uint32 => value.getUInt32.map .uint
  | .uint64 => value.getUInt64.map .uBigInt
  | .float => value.getFloat.map .float
  | .double => value.getDouble.map .double
  | .longDouble => value.getLongDouble.map .longDouble
  -- the buffer of the value is bound without its size
  | .shortString | .string | .longString | .char =>
      value.getBlob.map fun v => .string (LogCodec.cString v)
  | .blob => value.getBlob.map .blob
  | .zblob => value.getBlob.map fun v => .blob (zblob z v)
  | .dateTime => value.getDateTime.map .dateTime
  | .date => value.getDateTime.map .date
  | .time => value.getDateTime.map .time

/-- One turn of the loop of `bindEvent`. -/
def bindColumn (t : Term) (e : Event φ δ χ θ) : Option (ColumnValue φ δ χ θ) :=
  match e.getPointer t.termRef with
  | none => some .null
  | some value => bindValue z t.termType value

def bindEvent (fieldMap : List FieldData) (e : Event φ δ χ θ) :
    Option (List (ColumnValue φ δ χ θ)) :=
  match fieldMap with
  | [] => some []
  | f :: fieldMap => (bindColumn z f.2 e).bind fun c => (bindEvent fieldMap e).map (c :: ·)

/-- One turn of the loop of `fetchEvent`. -/
def fetchColumn (t : Term) (c : ColumnValue φ δ χ θ) (e : Event φ δ χ θ) :
    Option (Event φ δ χ θ) :=
  match t.termType with
  | .null | .object => some e
  | .int8 | .int16 | .int32 => (q.fetchInt c).bind fun v => e.setInt t.termRef v.toInt
  | .int64 => (q.fetchBigInt c).bind fun v => e.setBigInt t.termRef v.toInt
  | .uint8 | .uint16 | .uint32 => (q.fetchUInt c).bind fun v => e.setUInt t.termRef v.toNat
  | .uint64 => (q.fetchUBigInt c).bind fun v => e.setUBigInt t.termRef v.toNat
  | .float => (q.fetchFloat c).bind (e.setFloat t.termRef)
  | .double => (q.fetchDouble c).bind (e.setDouble t.termRef)
  | .longDouble => (q.fetchLongDouble c).bind (e.setLongDouble t.termRef)
  | .shortString | .string | .longString | .char =>
      (q.fetchString c).bind (e.setString conv t.termRef)
  | .blob => (q.fetchBlob c).bind (e.setBlob t.termRef)
  | .zblob => (fetchZBlob z q c).bind (e.setBlob t.termRef)
  | .dateTime => (q.fetchDateTime c).bind (e.setDateTime t.termRef)
  | .date => (q.fetchDate c).bind (e.setDateTime t.termRef)
  | .time => (q.fetchTime c).bind (e.setDateTime t.termRef)

def fetchEvent (fieldMap : List FieldData) (row : List (ColumnValue φ δ χ θ))
    (e : Event φ δ χ θ) : Option (Event φ δ χ θ) :=
  match fieldMap, row with
  | [], _ => some e
  | _ :: _, [] => none
  | f :: fieldMap, c :: row => (fetchColumn conv z q f.2 c e).bind (fetchEvent fieldMap row)

/-- An event is bound, and fetched into another one. -/
def bindAndFetch (fieldMap : List FieldData) (e e₀ : Event φ δ χ θ) : Option (Event φ δ χ θ) :=
  (bindEvent z fieldMap e).bind fun row => fetchEvent conv z q fieldMap row e₀

/-! ### What it is to do -/

/-- A new event is fetched without an exception, and every term of the field map has in it the
first value of the event that was bound, or none. -/
def FetchesBack (fieldMap : List FieldData) (e : Event φ δ χ θ) : Prop :=
  ∃ e', bindAndFetch conv z q fieldMap e [] = some e' ∧
    ∀ f ∈ fieldMap, e'.getPointer f.2.termRef = e.getPointer f.2.termRef

/-- The terms of these types have no values in a database. -/
def isStored : DataType → Bool
  | .null | .object => false
  | _ => true

/-- The value has the type of the variant for the terms of a type. -/
def HasKind (type : DataType) (value : ParameterValue φ δ χ θ) : Prop :=
  match type with
  | .null | .object => True
  | .int8 | .int16 | .int32 => ∃ v, value = .int32 v
  | .int64 => ∃ v, value = .int64 v
  | .uint8 | .uint16 | .uint32 => ∃ v, value = .uint32 v
  | .uint64 => ∃ v, value = .uint64 v
  | .float => ∃ v, value = .float v
  | .double => ∃ v, value = .double v
  | .longDouble => ∃ v, value = .longDouble v
  | .shortString | .string | .longString | .char | .blob | .zblob => ∃ v, value = .blob v
  | .dateTime | .date | .time => ∃ v, value = .dateTime v

/-- The value has the right type, and the part of a string in front of its first zero byte can be
made a blob. -/
def Passes (type : DataType) (value : ParameterValue φ δ χ θ) : Prop :=
  match type with
  | .shortString | .string | .longString | .char =>
      ∃ v, value = .blob v ∧ conv.makeUTF8Blob (LogCodec.cString v) ≠ none
  | type => HasKind type value

/-- The value has the right type, `make_utf8_blob` gives a string again from the part of it in front
of its first zero byte, and a compressed blob does not begin with a zero byte. -/
def Kept (type : DataType) (value : ParameterValue φ δ χ θ) : Prop :=
  match type with
  | .shortString | .string | .longString | .char =>
      ∃ v, value = .blob v ∧ conv.makeUTF8Blob (LogCodec.cString v) = some v
  | .zblob => ∃ v, value = .blob v ∧ v.head? ≠ some 0
  | type => HasKind type value

/-- The first column of a term with a type that is stored. -/
def firstStored (fieldMap : List FieldData) (termRef : ℕ) : Option FieldData :=
  fieldMap.find? fun f => f.2.termRef = termRef ∧ isStored f.2.termType

/-- Every stored column has a value that passes.  A term without a stored column has no value, and
the value of any other term is kept by the first of these columns. -/
structure Fetchable (fieldMap : List FieldData) (e : Event φ δ χ θ) : Prop where
  columns : ∀ f ∈ fieldMap, isStored f.2.termType →
    ∃ v, e.getPointer f.2.termRef = some v ∧ Passes conv f.2.termType v
  unstored : ∀ f ∈ fieldMap, firstStored fieldMap f.2.termRef = none →
    e.getPointer f.2.termRef = none
  kept : ∀ f ∈ fieldMap, ∀ g, firstStored fieldMap f.2.termRef = some g →
    ∀ v, e.getPointer f.2.termRef = some v → Kept conv g.2.termType v

variable {conv z q} {fieldMap : List FieldData} {e e' e₀ e₁ : Event φ δ χ θ} {t : Term}
  {v : ParameterValue φ δ χ θ}

/-! ### One column -/

/-- What a value is behind binding and fetching. -/
def storedValue (conv : Conversions φ δ χ θ) (type : DataType) (value : ParameterValue φ δ χ θ) :
    Option (ParameterValue φ δ χ θ) :=
  match type with
  | .shortString | .string | .longString | .char =>
      value.getBlob.bind fun v => (conv.makeUTF8Blob (LogCodec.cString v)).map .blob
  | .zblob => value.getBlob.map fun v => .blob (if v.head? = some 0 then [] else v)
  | .null | .object => none
  | .int8 | .int16 | .int32 => value.getInt32.map .int32
  | .int64 => value.getInt64.map .int64
  | .uint8 | .uint16 | .uint32 => value.getUInt32.map .uint32
  | .uint64 => value.getUInt64.map .uint64
  | .float => value.getFloat.map .float
  | .double => value.getDouble.map .double
  | .longDouble => value.getLongDouble.map .longDouble
  | .blob => value.getBlob.map .blob
  | .dateTime | .date | .time => value.getDateTime.map .dateTime

/-- A compressed blob is fetched again, unless it begins with a zero byte. -/
lemma fetchZBlob_zblob (v : Bytes) :
    fetchZBlob z q (.blob (zblob z v)) = some (if v.head? = some 0 then [] else v) := by
  cases v with
  | nil => simp [fetchZBlob, zblob]
  | cons b v =>
    by_cases hb : b = 0
    · simp [fetchZBlob, zblob, hb]
    · simp [fetchZBlob, zblob, hb, z.compress_ne_nil, z.decompress_compress]

/-- The number of a term is set again as it was fetched. -/
lemma uint32_ofInt_toNat (n : UInt32) : UInt32.ofInt n.toNat = n := by
  have hlt := n.toNat_lt
  show UInt32.ofNat _ = n
  rw [Int.emod_eq_of_lt (by omega) (by omega), Int.toNat_natCast, UInt32.ofNat_toNat]

lemma uint64_ofInt_toNat (n : UInt64) : UInt64.ofInt n.toNat = n := by
  have hlt := n.toNat_lt
  show UInt64.ofNat _ = n
  rw [Int.emod_eq_of_lt (by omega) (by omega), Int.toNat_natCast, UInt64.ofNat_toNat]

/-- A value that is bound and fetched again is inserted as the stored value. -/
lemma bind_fetchColumn (hstored : isStored t.termType) :
    (bindValue z t.termType v).bind (fun c => fetchColumn conv z q t c e₀) =
      (storedValue conv t.termType v).map (e₀.insert t.termRef) := by
  cases ht : t.termType <;> simp only [ht, isStored, Bool.false_eq_true] at hstored <;>
    cases v <;>
    simp [bindValue, fetchColumn, storedValue, ht, Event.setInt, Event.setUInt, Event.setBigInt,
      Event.setUBigInt, Event.setFloat, Event.setDouble, Event.setLongDouble, Event.setDateTime,
      Event.setBlob, Event.setString, Event.setX, fetchZBlob_zblob, uint32_ofInt_toNat,
      uint64_ofInt_toNat]

/-- Nothing is bound or fetched for a type that is not stored. -/
lemma bindColumn_unstored (hstored : isStored t.termType = false) :
    bindColumn z t e = some .null := by
  cases hvalue : e.getPointer t.termRef with
  | none => rw [bindColumn, hvalue]
  | some v => cases ht : t.termType <;> simp_all [bindColumn, bindValue, isStored]

lemma fetchColumn_unstored (hstored : isStored t.termType = false) (c : ColumnValue φ δ χ θ) :
    fetchColumn conv z q t c e₀ = some e₀ := by
  cases ht : t.termType <;> simp_all [fetchColumn, isStored]

/-- Fetching a column sets a value, whatever was bound. -/
lemma fetchColumn_stored (hstored : isStored t.termType) {c : ColumnValue φ δ χ θ}
    (h : fetchColumn conv z q t c e₀ = some e₁) : ∃ w, e₁ = e₀.insert t.termRef w := by
  cases ht : t.termType <;> simp only [ht, isStored, Bool.false_eq_true] at hstored <;>
    simp only [fetchColumn, ht, Option.bind_eq_some_iff, Event.setInt, Event.setUInt,
      Event.setBigInt, Event.setUBigInt, Event.setFloat, Event.setDouble, Event.setLongDouble,
      Event.setDateTime, Event.setBlob, Event.setString, Event.setX, Option.map_eq_some_iff] at h
  all_goals
    obtain ⟨-, -, w, -, rfl⟩ := h
    exact ⟨w, rfl⟩

/-! ### When a value comes back -/

lemma passes_iff (hstored : isStored t.termType) :
    Passes conv t.termType v ↔ storedValue conv t.termType v ≠ none := by
  cases ht : t.termType <;> simp only [ht, isStored, Bool.false_eq_true] at hstored <;>
    cases v <;> simp [Passes, HasKind, storedValue]

lemma kept_iff (hstored : isStored t.termType) :
    Kept conv t.termType v ↔ storedValue conv t.termType v = some v := by
  cases ht : t.termType <;> simp only [ht, isStored, Bool.false_eq_true] at hstored <;>
    cases v <;> simp [Kept, HasKind, storedValue]
  -- a compressed blob is kept unless it begins with a zero byte
  rename_i s
  cases s <;> simp

/-! ### All columns -/

lemma bindAndFetch_cons {f : FieldData} : bindAndFetch conv z q (f :: fieldMap) e e₀ =
    ((bindColumn z f.2 e).bind fun c => fetchColumn conv z q f.2 c e₀).bind fun e₁ =>
      bindAndFetch conv z q fieldMap e e₁ := by
  rw [bindAndFetch, bindEvent]
  cases bindColumn z f.2 e with
  | none => rfl
  | some c =>
    cases hrow : bindEvent z fieldMap e with
    | none =>
      -- the event is not bound, whatever the first column gives
      have hnone : ∀ e₁, bindAndFetch conv z q fieldMap e e₁ = none := fun e₁ => by
        rw [bindAndFetch, hrow]
        rfl
      cases hfetch : fetchColumn conv z q f.2 c e₀ <;> simp [hnone, hfetch]
    | some row =>
      have hsome : ∀ e₁, bindAndFetch conv z q fieldMap e e₁ =
          fetchEvent conv z q fieldMap row e₁ := fun e₁ => by
        rw [bindAndFetch, hrow]
        rfl
      simp [fetchEvent, hsome]

/-- One column: nothing happens if its type is not stored; else a value is set, which is the stored
value if there was a value. -/
lemma column_cases {t : Term}
    (h : (bindColumn z t e).bind (fun c => fetchColumn conv z q t c e₀) = some e₁) :
    (isStored t.termType = false ∧ e₁ = e₀) ∨
    (isStored t.termType = true ∧ ∃ w, e₁ = e₀.insert t.termRef w ∧
      ∀ v, e.getPointer t.termRef = some v → storedValue conv t.termType v = some w) := by
  cases hstored : isStored t.termType with
  | false =>
    rw [bindColumn_unstored hstored, Option.bind_some, fetchColumn_unstored hstored] at h
    exact .inl ⟨rfl, (Option.some.inj h).symm⟩
  | true =>
    refine .inr ⟨rfl, ?_⟩
    cases hvalue : e.getPointer t.termRef with
    | none =>
      obtain ⟨c, -, hfetch⟩ := Option.bind_eq_some_iff.1 h
      obtain ⟨w, hw⟩ := fetchColumn_stored hstored hfetch
      exact ⟨w, hw, fun v hv => nomatch hv⟩
    | some v =>
      have hbind : bindColumn z t e = bindValue z t.termType v := by
        rw [bindColumn, hvalue]
      rw [hbind, bind_fetchColumn hstored] at h
      obtain ⟨w, hw, rfl⟩ := Option.map_eq_some_iff.1 h
      refine ⟨w, rfl, fun v' hv' => ?_⟩
      obtain rfl := Option.some.inj hv'
      exact hw

/-- The first value of a term stays the first one. -/
lemma getPointer_insert (hsorted : Sorted e₀) (r termRef : ℕ) (w : ParameterValue φ δ χ θ) :
    (e₀.insert r w).getPointer termRef =
      if termRef = r then (e₀.getPointer termRef).or (some w) else e₀.getPointer termRef := by
  rw [Event.insert, Event.getPointer_eq hsorted.insertEqual, Event.getPointer_eq hsorted]
  split_ifs with hr
  · subst hr
    rw [values_insertEqual_self hsorted]
    cases values termRef e₀ <;> rfl
  · rw [values_insertEqual_of_ne hr]

/-- The first stored column of a term decides about its first value. -/
lemma getPointer_bindAndFetch (hsorted : Sorted e₀)
    (h : bindAndFetch conv z q fieldMap e e₀ = some e') (termRef : ℕ) :
    e'.getPointer termRef = e₀.getPointer termRef ∧
      (firstStored fieldMap termRef = none ∨ (e₀.getPointer termRef).isSome) ∨
    e₀.getPointer termRef = none ∧ ∃ f w, firstStored fieldMap termRef = some f ∧
      e'.getPointer termRef = some w ∧
      ∀ v, e.getPointer termRef = some v → storedValue conv f.2.termType v = some w := by
  induction fieldMap generalizing e₀ with
  | nil =>
    obtain rfl : e₀ = e' := by simpa [bindAndFetch, bindEvent, fetchEvent] using h
    exact .inl ⟨rfl, .inl rfl⟩
  | cons f fieldMap ih =>
    rw [bindAndFetch_cons] at h
    obtain ⟨e₁, hcolumn, hrest⟩ := Option.bind_eq_some_iff.1 h
    obtain ⟨hstored, rfl⟩ | ⟨hstored, w, rfl, hw⟩ := column_cases hcolumn
    · have hfirst : firstStored (f :: fieldMap) termRef = firstStored fieldMap termRef := by
        rw [firstStored, List.find?_cons_of_neg (by simp [hstored]), firstStored]
      rw [hfirst]
      exact ih hsorted hrest
    · have hpointer := getPointer_insert hsorted f.2.termRef termRef w
      have hthen := ih hsorted.insertEqual hrest
      by_cases hr : termRef = f.2.termRef
      · subst hr
        have hfirst : firstStored (f :: fieldMap) f.2.termRef = some f := by
          rw [firstStored, List.find?_cons_of_pos (by simp [hstored])]
        rw [if_pos rfl] at hpointer
        cases hold : e₀.getPointer f.2.termRef with
        | some v₀ =>
          rw [hold, Option.or_some] at hpointer
          obtain ⟨hsame, -⟩ | ⟨hnone, -⟩ := hthen
          · exact .inl ⟨hsame.trans hpointer, .inr rfl⟩
          · exact nomatch hpointer.symm.trans hnone
        | none =>
          rw [hold, Option.none_or] at hpointer
          obtain ⟨hsame, -⟩ | ⟨hnone, -⟩ := hthen
          · exact .inr ⟨rfl, f, w, hfirst, hsame.trans hpointer, hw⟩
          · exact nomatch hpointer.symm.trans hnone
      · have hfirst : firstStored (f :: fieldMap) termRef = firstStored fieldMap termRef := by
          have hne : f.2.termRef ≠ termRef := fun h => hr h.symm
          rw [firstStored, List.find?_cons_of_neg (by simp [hne]), firstStored]
        rw [if_neg hr] at hpointer
        rw [hfirst, ← hpointer]
        exact hthen

/-- No value of a stored column has made binding or fetching throw. -/
lemma storedValue_of_bindAndFetch (h : bindAndFetch conv z q fieldMap e e₀ = some e') :
    ∀ f ∈ fieldMap, isStored f.2.termType → ∀ v, e.getPointer f.2.termRef = some v →
      storedValue conv f.2.termType v ≠ none := by
  induction fieldMap generalizing e₀ with
  | nil => exact fun f hf => nomatch hf
  | cons g fieldMap ih =>
    rw [bindAndFetch_cons] at h
    obtain ⟨e₁, hcolumn, hrest⟩ := Option.bind_eq_some_iff.1 h
    intro f hf hstored v hv
    rcases List.mem_cons.1 hf with rfl | hf
    · obtain ⟨hnot, -⟩ | ⟨-, w, -, hw⟩ := column_cases hcolumn
      · rw [hstored] at hnot
        cases hnot
      · rw [hw v hv]
        exact Option.some_ne_none w
    · exact ih hrest f hf hstored v hv

/-- Nothing throws if every stored column has a value with a stored value. -/
lemma exists_bindAndFetch (hall : ∀ f ∈ fieldMap, isStored f.2.termType →
      ∃ v, e.getPointer f.2.termRef = some v ∧ storedValue conv f.2.termType v ≠ none)
    (e₀ : Event φ δ χ θ) : ∃ e', bindAndFetch conv z q fieldMap e e₀ = some e' := by
  induction fieldMap generalizing e₀ with
  | nil => exact ⟨e₀, rfl⟩
  | cons f fieldMap ih =>
    rw [bindAndFetch_cons]
    have hrest := ih fun g hg => hall g (List.mem_cons_of_mem f hg)
    cases hstored : isStored f.2.termType with
    | false =>
      rw [bindColumn_unstored hstored, Option.bind_some, fetchColumn_unstored hstored]
      exact hrest e₀
    | true =>
      obtain ⟨v, hv, hne⟩ := hall f List.mem_cons_self hstored
      obtain ⟨w, hw⟩ := Option.ne_none_iff_exists'.1 hne
      have hbind : bindColumn z f.2 e = bindValue z f.2.termType v := by
        rw [bindColumn, hv]
      rw [hbind, bind_fetchColumn hstored, hw]
      exact hrest (e₀.insert f.2.termRef w)

lemma firstStored_some {f : FieldData} {termRef : ℕ}
    (h : firstStored fieldMap termRef = some f) :
    f ∈ fieldMap ∧ f.2.termRef = termRef ∧ isStored f.2.termType := by
  have hpred := List.find?_some h
  rw [decide_eq_true_iff] at hpred
  exact ⟨List.mem_of_find?_eq_some h, hpred⟩

/-! ### Binding and fetching -/

variable (conv z q) in
/-- An event that is bound and fetched again, by a database that gives what was bound, has the
first values of all mapped terms exactly if the mapped terms have values that their columns keep:
a column with a missing value comes back with one. -/
theorem fetchesBack_iff (fieldMap : List FieldData) (e : Event φ δ χ θ) :
    FetchesBack conv z q fieldMap e ↔ Fetchable conv fieldMap e := by
  have hsorted : Sorted ([] : Event φ δ χ θ) := List.Pairwise.nil
  constructor
  · rintro ⟨e', h, hsame⟩
    have hpointer := getPointer_bindAndFetch hsorted h
    constructor
    · intro f hf hstored
      have hfirst : firstStored fieldMap f.2.termRef ≠ none := fun hnone => by
        have hno := List.find?_eq_none.1 hnone f hf
        simp [hstored] at hno
      obtain ⟨-, hnone | hsome⟩ | ⟨-, g, w, -, hw, -⟩ := hpointer f.2.termRef
      · exact absurd hnone hfirst
      · cases hsome
      · have hvalue := (hsame f hf).symm.trans hw
        refine ⟨w, hvalue, (passes_iff hstored).2 ?_⟩
        exact storedValue_of_bindAndFetch h f hf hstored w hvalue
    · intro f hf hnone
      obtain ⟨hempty, -⟩ | ⟨-, g, w, hg, -⟩ := hpointer f.2.termRef
      · exact (hsame f hf).symm.trans hempty
      · rw [hnone] at hg
        cases hg
    · intro f hf g hg v hv
      obtain ⟨-, hnone | hsome⟩ | ⟨-, g', w, hg', hw, hstored⟩ := hpointer f.2.termRef
      · rw [hg] at hnone
        cases hnone
      · cases hsome
      · obtain rfl := Option.some.inj (hg.symm.trans hg')
        obtain rfl := Option.some.inj (hw.symm.trans ((hsame f hf).trans hv))
        exact (kept_iff (firstStored_some hg).2.2).2 (hstored w hv)
  · intro hfetch
    obtain ⟨e', h⟩ := exists_bindAndFetch (z := z) (q := q) (e := e) (fun f hf hstored => by
      obtain ⟨v, hv, hpasses⟩ := hfetch.columns f hf hstored
      exact ⟨v, hv, (passes_iff hstored).1 hpasses⟩) []
    refine ⟨e', h, fun f hf => ?_⟩
    obtain ⟨hempty, hnone | hsome⟩ | ⟨-, g, w, hg, hw, hstored⟩ :=
      getPointer_bindAndFetch hsorted h f.2.termRef
    · exact hempty.trans (hfetch.unstored f hf hnone).symm
    · cases hsome
    · obtain ⟨hmem, href, hgstored⟩ := firstStored_some hg
      obtain ⟨v, hv, -⟩ := hfetch.columns g hmem hgstored
      rw [href] at hv
      have hkept := (kept_iff hgstored).1 (hfetch.kept f hf g hg v hv)
      rw [hw, hv, ← hkept, hstored v hv]

/-! ### A term without a value -/

/-- A database that gives zero, or an empty text, for `NULL`. -/
def zeroForNull : Query Unit Unit Unit Unit where
  fetchInt | .int v => some v | _ => some 0
  fetchUInt | .uint v => some v | _ => some 0
  fetchBigInt | .bigInt v => some v | _ => some 0
  fetchUBigInt | .uBigInt v => some v | _ => some 0
  fetchFloat _ := some ()
  fetchDouble _ := some ()
  fetchLongDouble _ := some ()
  fetchString | .string v => some v | _ => some []
  fetchBlob | .blob v => some v | _ => some []
  fetchDateTime _ := some ()
  fetchDate _ := some ()
  fetchTime _ := some ()
  fetchInt_int _ := rfl
  fetchUInt_uint _ := rfl
  fetchBigInt_bigInt _ := rfl
  fetchUBigInt_uBigInt _ := rfl
  fetchFloat_float _ := rfl
  fetchDouble_double _ := rfl
  fetchLongDouble_longDouble _ := rfl
  fetchString_string _ := rfl
  fetchBlob_blob _ := rfl
  fetchDateTime_dateTime _ := rfl
  fetchDate_date _ := rfl
  fetchTime_time _ := rfl

/-- A header of one byte, in place of compression. -/
def headed : ZLib where
  compress s := 120 :: s
  decompress
    | 120 :: s => some s
    | _ => none
  compress_ne_nil _ := List.cons_ne_nil _ _
  decompress_compress _ := rfl

/-- An event without a value for a number comes back with a zero. -/
theorem not_fetchesBack :
    bindAndFetch Event.noNumbers headed zeroForNull
      [(ascii "bytes", { termRef := 1, termType := .int32 })] [] [] = some [(1, .int32 0)] ∧
    ¬ ∀ (fieldMap : List FieldData) (e : Event Unit Unit Unit Unit),
      FetchesBack Event.noNumbers headed zeroForNull fieldMap e := by
  have hzero : bindAndFetch Event.noNumbers headed zeroForNull
      [(ascii "bytes", { termRef := 1, termType := .int32 })] [] [] = some [(1, .int32 0)] := rfl
  refine ⟨hzero, fun hall => ?_⟩
  obtain ⟨e', h, hsame⟩ := hall [(ascii "bytes", { termRef := 1, termType := .int32 })] []
  obtain rfl := Option.some.inj (hzero.symm.trans h)
  exact nomatch hsame _ List.mem_cons_self

end Query

end PionCore.Platform
