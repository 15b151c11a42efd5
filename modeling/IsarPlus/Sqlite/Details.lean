import IsarPlus.Core.ChangeDetector
import IsarPlus.Lib.OrderedStore
import IsarPlus.Sqlite.Reader
import IsarPlus.Sqlite.TableRows
import Mathlib.Data.String.Basic

/-!
# Details of changed rows

What the operations of SQLite record for detailed watchers: the rows that they have selected with
`SELECT *`, as JSON (`isar_core/src/sqlite/sqlite_reader.rs:405-486`), and the differences that
`ChangeDetector` finds in it (`sqlite_insert.rs:96-191`, `sqlite_query.rs:140-326`).
-/

namespace IsarPlus.Sqlite
open Scalar Sql OrderedStore

/-! ## JSON of a row -/

namespace SQLiteStatement

variable (codecs : Codecs) (stmt : SQLiteStatement) (collection : SQLiteCollection)

/-- The value of a property (`sqlite_reader.rs:418-478`). -/
def propertyJson (t : DataType) (index : UInt32) : Json :=
  let reader : Reader := .row stmt collection
  match t with
  | .bool => match reader.readBool index with
    | some v => .bool v
    | none => .null
  | .byte => .number (.integer (reader.readByte index).toNat)
  | .int => .number (.integer (reader.readInt index).toInt)
  | .float => (fromF64 (reader.readFloat index).toF64).getD .null
  | .long => .number (.integer (reader.readLong index).toInt)
  | .double => (fromF64 (reader.readDouble index)).getD .null
  | .string => match reader.readString index with
    | some s => .string s
    | none => .null
  | .byteList => match reader.readBlob codecs index with
    | some bytes => .string (codecs.encode bytes)
    | none => .null
  | _ => if reader.isNull index then .null else (codecs.fromStr (stmt.getText index)).getD .null

/-- One turn of the loop over the properties; column 0 is the id. -/
def insertProperty (result : SortedMap String Json) (property : SQLiteProperty × Nat) :
    SortedMap String Json :=
  result.insert property.1.name
    (stmt.propertyJson codecs collection property.1.dataType (UInt32.ofNat property.2 + 1))

/-- The map of `to_json` (`sqlite_reader.rs:405-486`). -/
def jsonMap : SortedMap String Json :=
  let id := (Reader.row stmt collection).readId
  collection.properties.zipIdx.foldl (stmt.insertProperty codecs collection)
    (SortedMap.empty.insert "id" (.number (.integer id.toInt)))

def toJson : Json := .object (stmt.jsonMap codecs collection).entries

end SQLiteStatement

/-! ## Rows of a table -/

/-- A row by the names of its columns, without the id. -/
abbrev Row := String → Value

/-- The columns of `SELECT *`, in the order of the table. -/
def Table.selectAll (t : Table) (id : Int64) (row : Row) : List Value :=
  t.columns.map fun c => if c.1 = idColumn then .integer id else row c.1

/-! ## Details -/

/-- A collection that is watched, with its table and the libraries that the details go through. -/
structure DetailedCollection where
  formats : Formats
  codecs : Codecs
  casts : Casts
  table : Table
  collection : SQLiteCollection

namespace DetailedCollection

variable (w : DetailedCollection)

/-- The statement behind a row of `SELECT *`. -/
def statement (id : Int64) (row : Row) : SQLiteStatement := ⟨w.casts, w.table.selectAll id row⟩

def rowJson (id : Int64) (row : Row) : Json :=
  (w.statement id row).toJson w.codecs w.collection

/-- `SELECT * FROM .. WHERE _rowid_ = ?`. -/
def select (rows : TableRows Row) (id : Int64) : Option Json :=
  (rows.lookup id).map (w.rowJson id)

def detect (id : Int64) (before after : Option Json) : Option (Option ChangeDetail) :=
  w.formats.detectChangesFromJson w.collection.name id before after

/-- `before_data` (`sqlite_query.rs:150-182`, `:255-287`): the rows of the ids with their JSON. -/
def beforeData (rows : TableRows Row) (ids : List Int64) : List (Int64 × Json) :=
  (rows.filter fun row => row.1 ∈ ids).map fun row =>
    ((Reader.row (w.statement row.1 row.2) w.collection).readId, w.rowJson row.1 row.2)

/-- A detail of `update` (`sqlite_query.rs:207-240`); nothing for a row that is gone. -/
def updateDetail (after : TableRows Row) (before : Int64 × Json) : Option (Option ChangeDetail) :=
  match w.select after before.1 with
  | some afterJson => w.detect before.1 (some before.2) (some afterJson)
  | none => some none

/-- `update` (`sqlite_query.rs:140-243`) of the rows with the ids. -/
def updateDetails (rows after : TableRows Row) (ids : List Int64) : Option (List ChangeDetail) :=
  ((w.beforeData rows ids).mapM (w.updateDetail after)).map List.reduceOption

/-- `delete` (`sqlite_query.rs:245-326`) of the rows with the ids. -/
def deleteDetails (rows : TableRows Row) (ids : List Int64) : Option (List ChangeDetail) :=
  ((w.beforeData rows ids).mapM fun before => w.detect before.1 (some before.2) none).map
    List.reduceOption

/-- What `SQLiteInsert` keeps for details (`sqlite_insert.rs:61-63`). -/
structure Inserted where
  insertedIds : List Int64
  beforeStates : Int64 → Option Json

/-- `save` (`sqlite_insert.rs:109-133`), with the rows at this moment. -/
def save (rows : TableRows Row) (inserted : Inserted) (id : Int64) : Inserted where
  insertedIds := inserted.insertedIds ++ [id]
  beforeStates := match w.select rows id with
    | some json => Function.update inserted.beforeStates id (some json)
    | none => inserted.beforeStates

/-- The saves of the batches, each of which is executed behind its last save. -/
def saveBatches (unique : Row → Row → Bool) (rows : TableRows Row) (inserted : Inserted) :
    List (TableRows Row) → TableRows Row × Inserted
  | [] => (rows, inserted)
  | batch :: batches =>
    saveBatches unique (rows.insertRows unique batch).1 (batch.ids.foldl (w.save rows) inserted)
      batches

/-- A detail of `finish` (`sqlite_insert.rs:147-189`). -/
def insertDetail (rows : TableRows Row) (inserted : Inserted) (id : Int64) :
    Option (Option ChangeDetail) :=
  match w.select rows id with
  | some afterJson => w.detect id (inserted.beforeStates id) (some afterJson)
  | none => some none

/-- The details of an insert whose objects go into the batches. -/
def insertDetails (unique : Row → Row → Bool) (rows : TableRows Row)
    (batches : List (TableRows Row)) : Option (List ChangeDetail) :=
  let (rows, inserted) := w.saveBatches unique rows ⟨[], fun _ => none⟩ batches
  (inserted.insertedIds.mapM (w.insertDetail rows inserted)).map List.reduceOption

end DetailedCollection

/-- The operations that record details. -/
inductive DetailedOperation where
  | insert (batches : List (TableRows Row))
  | update (query : SQLiteQuery Row) (offset limit : Option UInt32) (set : Row → Row)
  | delete (query : SQLiteQuery Row) (offset limit : Option UInt32)

/-- The details that an operation records; it fails where a unique index does not allow the
update. -/
def DetailedCollection.details (w : DetailedCollection) (unique : Row → Row → Bool)
    (rows : TableRows Row) : DetailedOperation → Option (List ChangeDetail)
  | .insert batches => w.insertDetails unique rows batches
  | .update query offset limit set => do
    let (after, _) ← query.update unique rows offset limit set
    w.updateDetails rows after (query.select rows offset limit)
  | .delete query offset limit => w.deleteDetails rows (query.select rows offset limit)

end IsarPlus.Sqlite
