/-
# Transactions

A table, and at most one transaction that is open on it.  The rows of an open transaction are
stored when it is committed, and lost when the connection is closed.  No transaction can begin
inside another one, and a row that is inserted outside a transaction is stored at once.
-/
import Mathlib.Data.List.Basic

namespace PionCore.Lib

variable {ε : Type*}

/-- The rows that are stored, and the rows of the transaction that is open. -/
structure Table (ε : Type*) where
  stored : List ε := []
  opened : Option (List ε) := none
deriving DecidableEq

namespace Table

/-- `BEGIN`, which fails inside a transaction. -/
def begins (t : Table ε) : Option (Table ε) :=
  match t.opened with
  | none => some { t with opened := some [] }
  | some _ => none

/-- `INSERT`. -/
def inserts (t : Table ε) (e : ε) : Table ε :=
  match t.opened with
  | none => { t with stored := t.stored ++ [e] }
  | some rows => { t with opened := some (rows ++ [e]) }

/-- `COMMIT`, which fails outside a transaction. -/
def commits (t : Table ε) : Option (Table ε) :=
  match t.opened with
  | none => none
  | some rows => some ⟨t.stored ++ rows, none⟩

/-- The connection is closed. -/
def closes (t : Table ε) : Table ε := { t with opened := none }

/-- The rows that will be stored if the transaction is committed. -/
def rows (t : Table ε) : List ε := t.stored ++ t.opened.getD []

@[simp] lemma rows_of_none {t : Table ε} (h : t.opened = none) : t.rows = t.stored := by
  simp [rows, h]

@[simp] lemma closes_stored (t : Table ε) : t.closes.stored = t.stored := rfl

@[simp] lemma closes_opened (t : Table ε) : t.closes.opened = none := rfl

@[simp] lemma rows_closes (t : Table ε) : t.closes.rows = t.stored := rows_of_none rfl

lemma begins_eq_some {t t' : Table ε} :
    t.begins = some t' ↔ t.opened = none ∧ t' = ⟨t.stored, some []⟩ := by
  obtain ⟨stored, _ | rows⟩ := t
  · simp [begins, eq_comm]
  · simp [begins]

lemma begins_of_none {t : Table ε} (h : t.opened = none) :
    t.begins = some ⟨t.stored, some []⟩ :=
  begins_eq_some.2 ⟨h, rfl⟩

lemma rows_begins {t t' : Table ε} (h : t.begins = some t') : t'.rows = t.rows := by
  obtain ⟨hnone, rfl⟩ := begins_eq_some.1 h
  rw [rows_of_none hnone]
  simp [rows]

lemma rows_inserts (t : Table ε) (e : ε) : (t.inserts e).rows = t.rows ++ [e] := by
  obtain ⟨stored, _ | rows⟩ := t
  · simp [inserts, Table.rows]
  · simp [inserts, Table.rows]

lemma inserts_of_some {t : Table ε} {rows : List ε} (h : t.opened = some rows) (e : ε) :
    t.inserts e = ⟨t.stored, some (rows ++ [e])⟩ := by
  simp [inserts, h]

lemma commits_eq_some {t t' : Table ε} :
    t.commits = some t' ↔ t.opened.isSome ∧ t' = ⟨t.rows, none⟩ := by
  obtain ⟨stored, _ | rows⟩ := t
  · simp [commits]
  · simp [commits, Table.rows, eq_comm]

/-- A transaction that is committed stores its rows, all of them. -/
lemma rows_commits {t t' : Table ε} (h : t.commits = some t') :
    t'.stored = t.rows ∧ t'.opened = none := by
  obtain ⟨-, rfl⟩ := commits_eq_some.1 h
  exact ⟨rfl, rfl⟩

end Table

end PionCore.Lib
