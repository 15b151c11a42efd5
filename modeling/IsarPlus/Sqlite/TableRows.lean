import IsarPlus.Core.Error

/-!
# Tables

What the statements of `isar_core/src/sqlite/sql.rs` and `sqlite/sqlite_query.rs` do to the rows of
a table, as SQLite documents it: `INSERT OR REPLACE`, `UPDATE` and `DELETE`, and which of the rows
they change are reported to the update hook. `unique` says which two rows have the same key of a
unique index.
-/

namespace IsarPlus.Sqlite

/-- The rows of a table with their rowids. -/
abbrev TableRows (R : Type) := List (Int64 × R)

/-- A row that a statement changes. -/
inductive RowChange where
  | inserted (id : Int64)
  | updated (id : Int64)
  | deleted (id : Int64)
  | replaced (id : Int64)
  | truncated (id : Int64)
  deriving DecidableEq, Repr

namespace RowChange

def id : RowChange → Int64
  | inserted id | updated id | deleted id | replaced id | truncated id => id

/-- The update hook is not called for rows that `REPLACE` or the truncate optimisation removes. -/
def reported : RowChange → Bool
  | inserted _ | updated _ | deleted _ => true
  | replaced _ | truncated _ => false

end RowChange

namespace TableRows

variable {R : Type} (unique : R → R → Bool)

def ids (table : TableRows R) : List Int64 := table.map Prod.fst

/-- The other rows with a key of the new row, which `REPLACE` removes. -/
def conflicting (table : TableRows R) (id : Int64) (row : R) : TableRows R :=
  table.filter fun old => old.1 ≠ id && unique row old.2

/-- One row of an `INSERT OR REPLACE`. -/
def insertRow (table : TableRows R) (id : Int64) (row : R) : TableRows R × List RowChange :=
  (table.filter (fun old => old.1 ≠ id && !unique row old.2) ++ [(id, row)],
    (table.conflicting unique id row).ids.map .replaced ++ [.inserted id])

/-- `INSERT OR REPLACE` of several rows (`sql.rs:78-110`). -/
def insertRows (table : TableRows R) : TableRows R → TableRows R × List RowChange
  | [] => (table, [])
  | (id, row) :: rows =>
    let (table, changes) := table.insertRow unique id row
    let (table, changes') := table.insertRows rows
    (table, changes ++ changes')

/-- The rows of an `UPDATE` one after the other, behind those that it has passed. It fails at the
first row that takes a key of another one. -/
def updateFrom (passed : TableRows R) (set : R → R) (targets : List Int64) :
    TableRows R → Option (TableRows R)
  | [] => some passed
  | (id, row) :: rest =>
    if id ∈ targets then
      if (passed ++ rest).any (fun other => unique (set row) other.2) then none
      else updateFrom (passed ++ [(id, set row)]) set targets rest
    else updateFrom (passed ++ [(id, row)]) set targets rest

/-- `UPDATE` of the rows with the given ids. -/
def update (table : TableRows R) (set : R → R) (targets : List Int64) :
    Option (TableRows R × List RowChange) :=
  (updateFrom unique [] set targets table).map fun table' =>
    (table', (table.ids.filter (· ∈ targets)).map .updated)

/-- `DELETE` with a `WHERE` clause. -/
def delete (table : TableRows R) (targets : List Int64) : TableRows R × List RowChange :=
  (table.filter (fun row => row.1 ∉ targets), (table.ids.filter (· ∈ targets)).map .deleted)

/-- `DELETE` without a `WHERE` clause. -/
def truncate (table : TableRows R) : TableRows R × List RowChange := ([], table.ids.map .truncated)

end TableRows

/-! ## Queries -/

/-- `SQLiteQuery` (`sqlite_query.rs:27-33`): the `WHERE` clause of its SQL, if there is one, and its
`ORDER BY` and `GROUP BY` clauses. -/
structure SQLiteQuery (R : Type) where
  collectionIndex : UInt16
  filter : Option (Int64 → R → Bool)
  sortDistinct : Option (TableRows R → TableRows R)

namespace SQLiteQuery

variable {R : Type}

/-- The ids that the query selects; `LIMIT` as in `offset_limit_sql` (`sql.rs:135-146`). -/
def select (q : SQLiteQuery R) (table : TableRows R) (offset limit : Option UInt32) : List Int64 :=
  let rows := match q.filter with
    | some filter => table.filter fun row => filter row.1 row.2
    | none => table
  let rows := match q.sortDistinct with
    | some sortDistinct => sortDistinct rows
    | none => rows
  let rows := match offset with
    | some offset => (rows.drop offset.toNat).take (limit.getD 0xffffffff).toNat
    | none =>
      match limit with
      | some limit => rows.take limit.toNat
      | none => rows
  TableRows.ids rows

/-- The statement names its rows through `WHERE _id IN (SELECT ..)`. -/
def nested (q : SQLiteQuery R) (offset limit : Option UInt32) : Bool :=
  offset.isSome || limit.isSome || q.sortDistinct.isSome

/-- `SQLiteQuery::update` (`sqlite_query.rs:140-243`) on the rows. -/
def update (unique : R → R → Bool) (q : SQLiteQuery R) (table : TableRows R)
    (offset limit : Option UInt32) (set : R → R) : Option (TableRows R × List RowChange) :=
  table.update unique set (q.select table offset limit)

/-- `SQLiteQuery::delete` (`sqlite_query.rs:245-326`) on the rows: `DELETE FROM table` without any
clause empties the table by the truncate optimisation. -/
def delete (q : SQLiteQuery R) (table : TableRows R) (offset limit : Option UInt32) :
    TableRows R × List RowChange :=
  if q.nested offset limit || q.filter.isSome then table.delete (q.select table offset limit)
  else table.truncate

end SQLiteQuery

end IsarPlus.Sqlite
