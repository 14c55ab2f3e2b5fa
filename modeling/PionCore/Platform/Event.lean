/-
# Events

`BasicEvent`: the values of an event are the nodes of a tree that is sorted by the terms, and that
has the values of one term in the order in which they were inserted.  Such a tree is taken as the
sorted list of its nodes.

The types of floating point numbers and of times, and the conversions from strings, are parameters.
-/
import PionCore.Lib.Runs
import PionCore.Lib.SortedMultimap
import PionCore.Platform.Vocabulary

namespace PionCore.Platform

open PionCore.Lib

/-- `ParameterValue`. -/
inductive ParameterValue (φ δ χ θ : Type*) where
  | int32 (v : Int32)
  | uint32 (v : UInt32)
  | int64 (v : Int64)
  | uint64 (v : UInt64)
  | float (v : φ)
  | double (v : δ)
  | longDouble (v : χ)
  | dateTime (v : θ)
  | blob (v : Bytes)

/-- The conversions from strings: `boost::lexical_cast`, `PionTimeFacet::fromString` with the format
of the term, and `make_utf8_blob`.  They may throw. -/
structure Conversions (φ δ χ θ : Type*) where
  toInt32 : Bytes → Option Int32
  toUInt32 : Bytes → Option UInt32
  toInt64 : Bytes → Option Int64
  toUInt64 : Bytes → Option UInt64
  toFloat : Bytes → Option φ
  toDouble : Bytes → Option δ
  toLongDouble : Bytes → Option χ
  toDateTime : Bytes → Bytes → Option θ
  makeUTF8Blob : Bytes → Option Bytes

/-- The parameters of an event. -/
abbrev Event (φ δ χ θ : Type*) : Type _ := List (ℕ × ParameterValue φ δ χ θ)

namespace Event

variable {φ δ χ θ : Type*} (conv : Conversions φ δ χ θ)

open SortedMultimap

def insert (e : Event φ δ χ θ) (termRef : ℕ) (value : ParameterValue φ δ χ θ) : Event φ δ χ θ :=
  insertEqual termRef value e

/-- All the functions that set a value insert it, unless its conversion throws. -/
def setX (e : Event φ δ χ θ) (termRef : ℕ) (value : Option (ParameterValue φ δ χ θ)) :
    Option (Event φ δ χ θ) :=
  value.map (e.insert termRef)

def setInt (e : Event φ δ χ θ) (termRef : ℕ) (value : ℤ) : Option (Event φ δ χ θ) :=
  e.setX termRef (some (.int32 (Int32.ofInt value)))

def setIntString (e : Event φ δ χ θ) (termRef : ℕ) (value : Bytes) : Option (Event φ δ χ θ) :=
  e.setX termRef ((conv.toInt32 value).map .int32)

def setUInt (e : Event φ δ χ θ) (termRef : ℕ) (value : ℤ) : Option (Event φ δ χ θ) :=
  e.setX termRef (some (.uint32 (UInt32.ofInt value)))

def setUIntString (e : Event φ δ χ θ) (termRef : ℕ) (value : Bytes) : Option (Event φ δ χ θ) :=
  e.setX termRef ((conv.toUInt32 value).map .uint32)

def setBigInt (e : Event φ δ χ θ) (termRef : ℕ) (value : ℤ) : Option (Event φ δ χ θ) :=
  e.setX termRef (some (.int64 (Int64.ofInt value)))

def setBigIntString (e : Event φ δ χ θ) (termRef : ℕ) (value : Bytes) : Option (Event φ δ χ θ) :=
  e.setX termRef ((conv.toInt64 value).map .int64)

def setUBigInt (e : Event φ δ χ θ) (termRef : ℕ) (value : ℤ) : Option (Event φ δ χ θ) :=
  e.setX termRef (some (.uint64 (UInt64.ofInt value)))

def setUBigIntString (e : Event φ δ χ θ) (termRef : ℕ) (value : Bytes) : Option (Event φ δ χ θ) :=
  e.setX termRef ((conv.toUInt64 value).map .uint64)

def setFloat (e : Event φ δ χ θ) (termRef : ℕ) (value : φ) : Option (Event φ δ χ θ) :=
  e.setX termRef (some (.float value))

def setFloatString (e : Event φ δ χ θ) (termRef : ℕ) (value : Bytes) : Option (Event φ δ χ θ) :=
  e.setX termRef ((conv.toFloat value).map .float)

def setDouble (e : Event φ δ χ θ) (termRef : ℕ) (value : δ) : Option (Event φ δ χ θ) :=
  e.setX termRef (some (.double value))

def setDoubleString (e : Event φ δ χ θ) (termRef : ℕ) (value : Bytes) : Option (Event φ δ χ θ) :=
  e.setX termRef ((conv.toDouble value).map .double)

def setLongDouble (e : Event φ δ χ θ) (termRef : ℕ) (value : χ) : Option (Event φ δ χ θ) :=
  e.setX termRef (some (.longDouble value))

def setLongDoubleString (e : Event φ δ χ θ) (termRef : ℕ) (value : Bytes) :
    Option (Event φ δ χ θ) :=
  e.setX termRef ((conv.toLongDouble value).map .longDouble)

def setDateTime (e : Event φ δ χ θ) (termRef : ℕ) (value : θ) : Option (Event φ δ χ θ) :=
  e.setX termRef (some (.dateTime value))

/-- With any of the types of a string. -/
def setBlob (e : Event φ δ χ θ) (termRef : ℕ) (value : Bytes) : Option (Event φ δ χ θ) :=
  e.setX termRef (some (.blob value))

/-- With any of the types of a string. -/
def setString (e : Event φ δ χ θ) (termRef : ℕ) (value : Bytes) : Option (Event φ δ χ θ) :=
  e.setX termRef ((conv.makeUTF8Blob value).map .blob)

def set (e : Event φ δ χ θ) (t : Term) (value : Bytes) : Option (Event φ δ χ θ) :=
  match t.termType with
  | .null | .object => none
  | .int8 | .int16 | .int32 => e.setIntString conv t.termRef value
  | .uint8 | .uint16 | .uint32 => e.setUIntString conv t.termRef value
  | .int64 => e.setBigIntString conv t.termRef value
  | .uint64 => e.setUBigIntString conv t.termRef value
  | .float => e.setFloatString conv t.termRef value
  | .double => e.setDoubleString conv t.termRef value
  | .longDouble => e.setLongDoubleString conv t.termRef value
  | .dateTime | .date | .time =>
      (conv.toDateTime t.termFormat value).bind (e.setDateTime t.termRef)
  | .shortString | .string | .longString | .char => e.setString conv t.termRef value
  | .blob | .zblob => e.setBlob t.termRef value

/-- `clear` for one term: the nodes of its range are erased one after the other. -/
def clearTerm (e : Event φ δ χ θ) (termRef : ℕ) : Event φ δ χ θ :=
  eraseFrom (lowerBound termRef e) (upperBound termRef e - lowerBound termRef e) e

def copyValues (e f : Event φ δ χ θ) (termRef : ℕ) : Event φ δ χ θ :=
  insertAll e (range (lowerBound termRef f) (upperBound termRef f) f)

/-- `operator+=`. -/
def addAll (e f : Event φ δ χ θ) : Event φ δ χ θ := insertAll e f

def getPointer (e : Event φ δ χ θ) (termRef : ℕ) : Option (ParameterValue φ δ χ θ) :=
  (find termRef e).map Prod.snd

end Event

/-- The calls that set a value. -/
inductive SetCall (φ δ χ θ : Type*) where
  | set (t : Term) (value : Bytes)
  | setInt (termRef : ℕ) (value : ℤ)
  | setIntString (termRef : ℕ) (value : Bytes)
  | setUInt (termRef : ℕ) (value : ℤ)
  | setUIntString (termRef : ℕ) (value : Bytes)
  | setBigInt (termRef : ℕ) (value : ℤ)
  | setBigIntString (termRef : ℕ) (value : Bytes)
  | setUBigInt (termRef : ℕ) (value : ℤ)
  | setUBigIntString (termRef : ℕ) (value : Bytes)
  | setFloat (termRef : ℕ) (value : φ)
  | setFloatString (termRef : ℕ) (value : Bytes)
  | setDouble (termRef : ℕ) (value : δ)
  | setDoubleString (termRef : ℕ) (value : Bytes)
  | setLongDouble (termRef : ℕ) (value : χ)
  | setLongDoubleString (termRef : ℕ) (value : Bytes)
  | setDateTime (termRef : ℕ) (value : θ)
  | setBlob (termRef : ℕ) (value : Bytes)
  | setString (termRef : ℕ) (value : Bytes)

/-- The operations on the events `ι`. -/
inductive EventOp (ι φ δ χ θ : Type*) where
  | set (i : ι) (call : SetCall φ δ χ θ)
  | clearTerm (i : ι) (termRef : ℕ)
  | clear (i : ι)
  | copyValues (i j : ι) (termRef : ℕ)
  | addAll (i j : ι)

namespace SetCall

variable {φ δ χ θ : Type*} (conv : Conversions φ δ χ θ)

def apply (e : Event φ δ χ θ) : SetCall φ δ χ θ → Option (Event φ δ χ θ)
  | set t value => e.set conv t value
  | setInt termRef value => e.setInt termRef value
  | setIntString termRef value => e.setIntString conv termRef value
  | setUInt termRef value => e.setUInt termRef value
  | setUIntString termRef value => e.setUIntString conv termRef value
  | setBigInt termRef value => e.setBigInt termRef value
  | setBigIntString termRef value => e.setBigIntString conv termRef value
  | setUBigInt termRef value => e.setUBigInt termRef value
  | setUBigIntString termRef value => e.setUBigIntString conv termRef value
  | setFloat termRef value => e.setFloat termRef value
  | setFloatString termRef value => e.setFloatString conv termRef value
  | setDouble termRef value => e.setDouble termRef value
  | setDoubleString termRef value => e.setDoubleString conv termRef value
  | setLongDouble termRef value => e.setLongDouble termRef value
  | setLongDoubleString termRef value => e.setLongDoubleString conv termRef value
  | setDateTime termRef value => e.setDateTime termRef value
  | setBlob termRef value => e.setBlob termRef value
  | setString termRef value => e.setString conv termRef value

/-- The term that is set. -/
def termRef : SetCall φ δ χ θ → ℕ
  | set t _ => t.termRef
  | setInt termRef _ | setIntString termRef _ | setUInt termRef _ | setUIntString termRef _
  | setBigInt termRef _ | setBigIntString termRef _ | setUBigInt termRef _
  | setUBigIntString termRef _ | setFloat termRef _ | setFloatString termRef _
  | setDouble termRef _ | setDoubleString termRef _ | setLongDouble termRef _
  | setLongDoubleString termRef _ | setDateTime termRef _ | setBlob termRef _
  | setString termRef _ => termRef

/-- What a string is for a term of some type. -/
def stringValue (t : Term) (value : Bytes) : Option (ParameterValue φ δ χ θ) :=
  match t.termType with
  | .null | .object => none
  | .int8 | .int16 | .int32 => (conv.toInt32 value).map .int32
  | .uint8 | .uint16 | .uint32 => (conv.toUInt32 value).map .uint32
  | .int64 => (conv.toInt64 value).map .int64
  | .uint64 => (conv.toUInt64 value).map .uint64
  | .float => (conv.toFloat value).map .float
  | .double => (conv.toDouble value).map .double
  | .longDouble => (conv.toLongDouble value).map .longDouble
  | .dateTime | .date | .time => (conv.toDateTime t.termFormat value).map .dateTime
  | .shortString | .string | .longString | .char => (conv.makeUTF8Blob value).map .blob
  | .blob | .zblob => some (.blob value)

/-- The value that is set, unless its conversion throws. -/
def value : SetCall φ δ χ θ → Option (ParameterValue φ δ χ θ)
  | set t value => stringValue conv t value
  | setInt _ value => some (.int32 (Int32.ofInt value))
  | setIntString _ value => (conv.toInt32 value).map .int32
  | setUInt _ value => some (.uint32 (UInt32.ofInt value))
  | setUIntString _ value => (conv.toUInt32 value).map .uint32
  | setBigInt _ value => some (.int64 (Int64.ofInt value))
  | setBigIntString _ value => (conv.toInt64 value).map .int64
  | setUBigInt _ value => some (.uint64 (UInt64.ofInt value))
  | setUBigIntString _ value => (conv.toUInt64 value).map .uint64
  | setFloat _ value => some (.float value)
  | setFloatString _ value => (conv.toFloat value).map .float
  | setDouble _ value => some (.double value)
  | setDoubleString _ value => (conv.toDouble value).map .double
  | setLongDouble _ value => some (.longDouble value)
  | setLongDoubleString _ value => (conv.toLongDouble value).map .longDouble
  | setDateTime _ value => some (.dateTime value)
  | setBlob _ value => some (.blob value)
  | setString _ value => (conv.makeUTF8Blob value).map .blob

lemma apply_eq (call : SetCall φ δ χ θ) (e : Event φ δ χ θ) :
    call.apply conv e = (call.value conv).map (e.insert call.termRef) := by
  cases call with
  | set t value =>
    show e.set conv t value = (stringValue conv t value).map (e.insert t.termRef)
    rw [Event.set, stringValue]
    cases t.termType with
    | null | object => rfl
    | dateTime | date | time => cases conv.toDateTime t.termFormat value <;> rfl
    | _ => rfl
  | _ => rfl

end SetCall

namespace Event

open SortedMultimap

variable {ι φ δ χ θ : Type*} [DecidableEq ι] (conv : Conversions φ δ χ θ)

/-- An operation on the events; an event is not copied to itself. -/
def step (s : ι → Event φ δ χ θ) : EventOp ι φ δ χ θ → Option (ι → Event φ δ χ θ)
  | .set i call =>
      match call.apply conv (s i) with
      | none => some s
      | some e => some (Function.update s i e)
  | .clearTerm i termRef => some (Function.update s i ((s i).clearTerm termRef))
  | .clear i => some (Function.update s i [])
  | .copyValues i j termRef =>
      if i = j then none else some (Function.update s i ((s i).copyValues (s j) termRef))
  | .addAll i j => if i = j then none else some (Function.update s i ((s i).addAll (s j)))

/-! ### The values of the terms -/

/-- What an operation does to the values that were set for the terms and not cleared since. -/
def setValues (h : ι → ℕ → List (ParameterValue φ δ χ θ)) :
    EventOp ι φ δ χ θ → ι → ℕ → List (ParameterValue φ δ χ θ)
  | .set i call =>
      Function.update h i
        (Function.update (h i) call.termRef (h i call.termRef ++ (call.value conv).toList))
  | .clearTerm i termRef => Function.update h i (Function.update (h i) termRef [])
  | .clear i => Function.update h i fun _ => []
  | .copyValues i j termRef =>
      Function.update h i (Function.update (h i) termRef (h i termRef ++ h j termRef))
  | .addAll i j => Function.update h i fun termRef => h i termRef ++ h j termRef

/-- The values that were set for the terms and not cleared since, in their order. -/
def history (es : List (EventOp ι φ δ χ θ)) : ι → ℕ → List (ParameterValue φ δ χ θ) :=
  es.foldl (setValues conv) fun _ _ => []

/-- The operation is about a term of an event. -/
def Touches (e : EventOp ι φ δ χ θ) (i : ι) (termRef : ℕ) : Prop :=
  match e with
  | .set j call => i = j ∧ termRef = call.termRef
  | .clearTerm j t => i = j ∧ termRef = t
  | .clear j => i = j
  | .copyValues j _ t => i = j ∧ termRef = t
  | .addAll j _ => i = j

/-- The tree of every event is sorted, and has the values of the history. -/
structure Holds (s : ι → Event φ δ χ θ) (h : ι → ℕ → List (ParameterValue φ δ χ θ)) : Prop where
  sorted : ∀ i, Sorted (s i)
  values : ∀ i termRef, values termRef (s i) = h i termRef

variable {conv} {s : ι → Event φ δ χ θ} {h : ι → ℕ → List (ParameterValue φ δ χ θ)}

/-- Only one event changes. -/
lemma Holds.update (hs : Holds s h) {i : ι} {e : Event φ δ χ θ}
    {v : ℕ → List (ParameterValue φ δ χ θ)} (hsorted : Sorted e)
    (hvalues : ∀ termRef, SortedMultimap.values termRef e = v termRef) :
    Holds (Function.update s i e) (Function.update h i v) := by
  constructor
  · intro j
    by_cases hj : j = i
    · subst hj
      rw [Function.update_self]
      exact hsorted
    · rw [Function.update_of_ne hj]
      exact hs.sorted j
  · intro j termRef
    by_cases hj : j = i
    · subst hj
      rw [Function.update_self, Function.update_self]
      exact hvalues termRef
    · rw [Function.update_of_ne hj, Function.update_of_ne hj]
      exact hs.values j termRef

/-- The values of one term change. -/
lemma update_values {e e' : Event φ δ χ θ} {v : ℕ → List (ParameterValue φ δ χ θ)} {t : ℕ}
    {l : List (ParameterValue φ δ χ θ)} (hold : ∀ termRef, SortedMultimap.values termRef e = v termRef)
    (hself : SortedMultimap.values t e' = l)
    (hother : ∀ termRef, termRef ≠ t →
      SortedMultimap.values termRef e' = SortedMultimap.values termRef e) (termRef : ℕ) :
    SortedMultimap.values termRef e' = Function.update v t l termRef := by
  by_cases ht : termRef = t
  · subst ht
    rw [Function.update_self, hself]
  · rw [Function.update_of_ne ht, hother termRef ht, hold]

lemma Holds.step (hs : Holds s h) {op : EventOp ι φ δ χ θ} {s' : ι → Event φ δ χ θ}
    (hstep : step conv s op = some s') : Holds s' (setValues conv h op) := by
  cases op with
  | set i call =>
    simp only [Event.step, SetCall.apply_eq] at hstep
    cases hvalue : call.value conv with
    | none =>
      obtain rfl : s = s' := by simpa [hvalue] using hstep
      have hsame : setValues conv h (.set i call) = h := by
        simp [setValues, hvalue]
      rw [hsame]
      exact hs
    | some v =>
      obtain rfl : Function.update s i ((s i).insert call.termRef v) = s' := by
        simpa [hvalue] using hstep
      refine hs.update (hs.sorted i).insertEqual (update_values (hs.values i) ?_ ?_)
      · rw [Event.insert, values_insertEqual_self (hs.sorted i), hs.values, hvalue]
        rfl
      · exact fun termRef ht => values_insertEqual_of_ne ht
  | clearTerm i t =>
    obtain rfl := Option.some.inj hstep
    rw [clearTerm, (hs.sorted i).eraseFrom_eq]
    exact hs.update ((hs.sorted i).filter _) (update_values (hs.values i) values_filter_self
      fun termRef ht => values_filter_of_ne ht)
  | clear i =>
    obtain rfl := Option.some.inj hstep
    exact hs.update List.Pairwise.nil fun _ => rfl
  | copyValues i j t =>
    obtain ⟨-, ⟨⟩⟩ := Option.ite_none_left_eq_some.1 hstep
    rw [copyValues, (hs.sorted j).range_eq]
    refine hs.update (hs.sorted i).insertAll (update_values (hs.values i) ?_ ?_)
    · rw [values_insertAll (hs.sorted i), values_filter_eq_self, hs.values, hs.values]
    · intro termRef ht
      rw [values_insertAll (hs.sorted i), values_filter_eq_of_ne ht, List.append_nil]
  | addAll i j =>
    obtain ⟨-, ⟨⟩⟩ := Option.ite_none_left_eq_some.1 hstep
    refine hs.update (hs.sorted i).insertAll fun termRef => ?_
    rw [addAll, values_insertAll (hs.sorted i), hs.values, hs.values]

/-- The first value of a term. -/
lemma getPointer_eq {e : Event φ δ χ θ} (hsorted : Sorted e) (termRef : ℕ) :
    e.getPointer termRef = (values termRef e).head? := by
  rw [getPointer, hsorted.find_eq, values, List.head?_map]

/-- The history of the other terms does not change. -/
lemma setValues_of_not_touches {op : EventOp ι φ δ χ θ} {i : ι} {termRef : ℕ}
    (hnot : ¬ Touches op i termRef) : setValues conv h op i termRef = h i termRef := by
  have hterm : ∀ {j : ι} {t : ℕ} {l : List (ParameterValue φ δ χ θ)}, ¬ (i = j ∧ termRef = t) →
      Function.update h j (Function.update (h j) t l) i termRef = h i termRef := by
    intro j t l hne
    by_cases hj : i = j
    · subst hj
      rw [Function.update_self, Function.update_of_ne fun ht => hne ⟨rfl, ht⟩]
    · rw [Function.update_of_ne hj]
  cases op with
  | set j call => exact hterm hnot
  | clearTerm j t => exact hterm hnot
  | clear j => exact congrFun (Function.update_of_ne hnot ..) termRef
  | copyValues j k t => exact hterm hnot
  | addAll j k => exact congrFun (Function.update_of_ne hnot ..) termRef

/-! ### Whole runs -/

/-- In every run, the iteration of an event gives the terms in ascending order, for each term the
values that were set for it and not cleared since in their order, and `getPointer` gives the first
of them; and an operation leaves the values of all other terms as they are. -/
theorem event_multimap (conv : Conversions φ δ χ θ) {ops : List (EventOp ι φ δ χ θ)}
    {s : ι → Event φ δ χ θ} (hrun : run (step conv) (fun _ => []) ops = some s) :
    (∀ i, Sorted (s i) ∧ ∀ termRef, values termRef (s i) = history conv ops i termRef ∧
      (s i).getPointer termRef = (history conv ops i termRef).head?) ∧
    ∀ op s', step conv s op = some s' → ∀ i termRef, ¬ Touches op i termRef →
      values termRef (s' i) = values termRef (s i) := by
  have hholds : Holds s (history conv ops) := by
    refine run_induction (P := fun ops s => Holds s (history conv ops)) ?_ ?_ hrun
    · exact ⟨fun _ => List.Pairwise.nil, fun _ _ => rfl⟩
    · intro ops op t t' _ ht hstep
      rw [history, List.foldl_append]
      exact ht.step hstep
  refine ⟨fun i => ⟨hholds.sorted i, fun termRef => ⟨hholds.values i termRef, ?_⟩⟩, ?_⟩
  · rw [getPointer_eq (hholds.sorted i), hholds.values]
  · intro op s' hstep i termRef hnot
    rw [(hholds.step hstep).values, hholds.values, setValues_of_not_touches hnot]

/-- Conversions that find no number, and copy every string. -/
def noNumbers : Conversions Unit Unit Unit Unit where
  toInt32 _ := none
  toUInt32 _ := none
  toInt64 _ := none
  toUInt64 _ := none
  toFloat _ := none
  toDouble _ := none
  toLongDouble _ := none
  toDateTime _ _ := none
  makeUTF8Blob := some

/-- Values of two terms are set, copied to another event, and cleared. -/
theorem event_multimap_copied :
    let ops : List (EventOp Bool Unit Unit Unit Unit) :=
      [.set false (.setInt 7 1), .set false (.setInt 3 2), .set false (.setInt 7 3),
        .set false (.set { termRef := 3, termType := .int8 } [49]), .copyValues true false 7,
        .addAll true false, .clearTerm false 7]
    ∃ s, run (step noNumbers) (fun _ => []) ops = some s ∧
      (s false).map Prod.fst = [3] ∧ (s true).map Prod.fst = [3, 7, 7, 7, 7] ∧
      (∀ i, Sorted (s i) ∧ ∀ termRef, values termRef (s i) = history noNumbers ops i termRef ∧
        (s i).getPointer termRef = (history noNumbers ops i termRef).head?) ∧
      ∀ op s', step noNumbers s op = some s' → ∀ i termRef, ¬ Touches op i termRef →
        values termRef (s' i) = values termRef (s i) := by
  intro ops
  have hsome : (run (step noNumbers) (fun _ => []) ops).map
      (fun s => ((s false).map Prod.fst, (s true).map Prod.fst)) =
        some ([3], [3, 7, 7, 7, 7]) := by
    decide +kernel
  obtain ⟨s, hs, hlists⟩ := Option.map_eq_some_iff.1 hsome
  exact ⟨s, hs, congrArg Prod.fst hlists, congrArg Prod.snd hlists, event_multimap noNumbers hs⟩

end Event

end PionCore.Platform
