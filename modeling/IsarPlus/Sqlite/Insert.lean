import IsarPlus.Sqlite.SchemaManager
import IsarPlus.Sqlite.TableRows
import IsarPlus.Sqlite.Transaction
import IsarPlus.Sqlite.Writer

/-!
# Inserting rows

`SQLiteInsert` (`isar_core/src/sqlite/sqlite_insert.rs` and `sqlite_writer.rs:8-138`): every object
of a batch binds the parameters of its own row of one `INSERT` statement, and the statement is
executed when the batch is full.
-/

namespace IsarPlus.Sqlite
open Scalar Sql

/-- `serde_json::to_string` and `from_str`, and the `encode` and `decode` of the base64 crate. -/
structure Codecs where
  toString : Json → List Char
  fromStr : List Char → Option Json
  encode : List UInt8 → List Char
  decode : List Char → Option (List UInt8)

/-- The position of a target among the schemas; one that is not there panics. -/
def targetIndex (schemas : List IsarSchema) : Option String → Option (Option UInt16)
  | some collection =>
    (schemas.findIdx? fun c => c.name == collection).map fun position =>
      some (UInt16.ofNat position)
  | none => some none

/-- A property as an opened collection knows it. -/
def openProperty (schemas : List IsarSchema) (p : String × PropertySchema) :
    Option SQLiteProperty :=
  (targetIndex schemas p.2.collection).map fun collectionIndex =>
    { name := p.1, dataType := p.2.dataType, collectionIndex }

/-- One turn of the loop of `get_collections` (`sqlite_open.rs:82-111`). -/
def openCollection (schemas : List IsarSchema) (schema : IsarSchema) : Option SQLiteCollection :=
  ((schema.properties.filterMap fun p => p.name.map fun name => (name, p)).mapM
    (openProperty schemas)).map fun properties =>
      { name := schema.name, idName := schema.idName, properties }

/-- `get_collections` (`sqlite_open.rs:82-111`). -/
def getCollections (schemas : List IsarSchema) : Option (List SQLiteCollection) :=
  schemas.mapM (openCollection schemas)

/-! ## Columns -/

/-- Columns of numbers have the affinity `NUMERIC`, which makes integers of the floats that are
integers. Other columns keep what is bound to them: the JSON of an object or a list looks like no
number, whatever the affinity. A value of another type than the column's is left alone here, while
SQLite makes a number of a text that looks like one in a column of numbers, and a text of a number in
a column of texts; the generated code writes no such value. -/
def columnValue (t : DataType) (value : Value) : Value :=
  match t, value with
  | .bool, .real v | .byte, .real v | .int, .real v | .float, .real v | .long, .real v
  | .double, .real v =>
    let n := scaled v / 2 ^ 1074
    if isFinite v ∧ scaled v = n * 2 ^ 1074 ∧ -2 ^ 63 < n ∧ n < 2 ^ 63 - 1 then
      .integer (Int64.ofInt n)
    else value
  | _, _ => value

/-- `SQLiteInsert` (`sqlite_insert.rs:52-64`): the parameters of its statement, and the rows that it
has inserted so far, first the id and then the properties. -/
structure SQLiteRowInsert where
  collection : SQLiteCollection
  remaining : Nat
  batchSize : Nat
  batchRemaining : Nat
  params : Nat → Value
  rows : List (List Value)

namespace SQLiteRowInsert

/-- The number of columns. -/
def width (insert : SQLiteRowInsert) : Nat := insert.collection.properties.length + 1

/-- The number of rows that `insert_sql` (`sql.rs:78-110`) puts into a statement. -/
def batchOf (c : SQLiteCollection) (count : Nat) : Nat :=
  insertBatchSize c.properties.length count

/-- `SQLiteInsert::new`. A prepared statement has null in all parameters. -/
def new (c : SQLiteCollection) (count : Nat) : SQLiteRowInsert where
  collection := c
  remaining := count - batchOf c count
  batchSize := batchOf c count
  batchRemaining := batchOf c count
  params := fun _ => .null
  rows := []

/-- The rows of the statement, of which there is at least one. -/
def statementRows (insert : SQLiteRowInsert) : Nat := max insert.batchSize 1

/-- `property_index` (`sqlite_writer.rs:9-12`), also for the id. -/
def propertyIndex (insert : SQLiteRowInsert) (index : Nat) : Nat :=
  (insert.batchSize - insert.batchRemaining) * insert.width + index

/-- A call of `bind_..`; one past the last parameter fails, which the writer ignores. -/
def bind (insert : SQLiteRowInsert) (col : Nat) (value : Value) : SQLiteRowInsert :=
  if col < insert.statementRows * insert.width then
    { insert with params := Function.update insert.params col value }
  else insert

/-- The row that the statement inserts from the parameters at its place. -/
def row (insert : SQLiteRowInsert) (place : Nat) : List Value :=
  insert.params (place * insert.width) :: insert.collection.properties.mapIdx fun i p =>
    columnValue p.dataType (insert.params (place * insert.width + (i + 1)))

/-- `step` on the statement. -/
def step (insert : SQLiteRowInsert) : SQLiteRowInsert :=
  { insert with rows := insert.rows ++ (List.range insert.statementRows).map insert.row }

/-- `TxnWithStatement::next` (`sqlite_insert.rs:35-45`), with the counters that `save` sets. -/
def next (insert : SQLiteRowInsert) : SQLiteRowInsert :=
  let batchSize := batchOf insert.collection insert.remaining
  { insert.step with
    remaining := insert.remaining - batchSize
    batchSize
    batchRemaining := batchSize
    params := fun _ => .null }

/-- `save` (`sqlite_insert.rs:98-142`), without what it keeps for watchers. -/
def save (insert : SQLiteRowInsert) (id : Int64) : Result SQLiteRowInsert :=
  if 0 < insert.batchRemaining then
    let insert := insert.bind (insert.propertyIndex 0) (.integer id)
    let insert := { insert with batchRemaining := insert.batchRemaining - 1 }
    if insert.batchRemaining = 0 ∧ 0 < insert.remaining then pure insert.next else pure insert
  else fail .unsupportedOperation

/-- `finish` (`sqlite_insert.rs:144-192`): the rows of all statements. -/
def finish (insert : SQLiteRowInsert) : List (List Value) := insert.step.rows

/-! ## Writing -/

def writeNull (insert : SQLiteRowInsert) (index : UInt32) : SQLiteRowInsert :=
  insert.bind (insert.propertyIndex index.toNat) .null

def writeValue (insert : SQLiteRowInsert) (index : UInt32) (value : Value) : SQLiteRowInsert :=
  insert.bind (insert.propertyIndex index.toNat) value

def writeBool (insert : SQLiteRowInsert) (index : UInt32) (value : Bool) : SQLiteRowInsert :=
  insert.writeValue index (.integer (if value then 1 else 0))

def writeByte (insert : SQLiteRowInsert) (index : UInt32) (value : UInt8) : SQLiteRowInsert :=
  insert.writeValue index (.integer (Int64.ofInt value.toNat))

def writeInt (insert : SQLiteRowInsert) (index : UInt32) (value : Int32) : SQLiteRowInsert :=
  insert.writeValue index (if value ≠ nullInt then .integer value.toInt64 else .null)

def writeFloat (insert : SQLiteRowInsert) (index : UInt32) (value : F32) : SQLiteRowInsert :=
  insert.writeValue index (if value.isNan then .null else .real value.toF64)

def writeLong (insert : SQLiteRowInsert) (index : UInt32) (value : Int64) : SQLiteRowInsert :=
  insert.writeValue index (if value ≠ nullLong then .integer value else .null)

def writeDouble (insert : SQLiteRowInsert) (index : UInt32) (value : F64) : SQLiteRowInsert :=
  insert.writeValue index (if value.isNan then .null else .real value)

def writeString (insert : SQLiteRowInsert) (index : UInt32) (value : List Char) : SQLiteRowInsert :=
  insert.writeValue index (.text value)

def writeByteList (insert : SQLiteRowInsert) (index : UInt32) (value : List UInt8) : SQLiteRowInsert :=
  insert.writeValue index (.blob value)

section
variable (codecs : Codecs) (all : List SQLiteCollection)

/-- `begin_object`; a target that does not exist panics. -/
def beginObject (insert : SQLiteRowInsert) (index : UInt32) : Option SQLiteObjectWriter := do
  let property ← insert.collection.getProperty index.toUInt16
  let collectionIndex ← property.collectionIndex
  let target ← all[collectionIndex.toNat]?
  pure (.new target index.toUInt16)

/-- `end_object`: the index has gone through `u16`. -/
def endObject (insert : SQLiteRowInsert) (writer : SQLiteObjectWriter) : SQLiteRowInsert :=
  insert.writeString writer.propertyIndex.toUInt32 (codecs.toString (.object writer.map))

def beginList (insert : SQLiteRowInsert) (index length : UInt32) : Option SQLiteListWriter := do
  let property ← insert.collection.getProperty index.toUInt16
  pure { collectionIndex := property.collectionIndex
         propertyIndex := index.toUInt16
         list := List.replicate length.toNat .null }

def endList (insert : SQLiteRowInsert) (writer : SQLiteListWriter) : SQLiteRowInsert :=
  insert.writeString writer.propertyIndex.toUInt32 (codecs.toString (.array writer.list))

/-- The calls that write one property. -/
def write (insert : SQLiteRowInsert) (index : UInt32) : Written → SQLiteRowInsert
  | .null => insert.writeNull index
  | .bool value => insert.writeBool index value
  | .byte value => insert.writeByte index value
  | .int value => insert.writeInt index value
  | .float value => insert.writeFloat index value
  | .long value => insert.writeLong index value
  | .double value => insert.writeDouble index value
  | .string value => insert.writeString index value
  | .byteList value => insert.writeByteList index value
  | .object writes =>
    match insert.beginObject all index with
    | some inner => insert.endObject codecs (inner.writeAll codecs.encode all writes)
    | none => insert
  | .list length writes =>
    match insert.beginList index length with
    | some inner => insert.endList codecs (inner.writeAll codecs.encode all writes)
    | none => insert

end

end SQLiteRowInsert

/-! ## Calls -/

/-- A call on an insert that is open. -/
inductive InsertCall where
  | write (index : UInt32) (value : Written)
  | save (id : Int64)

namespace InsertCall

/-- The objects of a run: what has been written between one `save` and the next. -/
def objects (writes : List (UInt32 × Written)) :
    List InsertCall → List (Int64 × List (UInt32 × Written))
  | [] => []
  | .write index value :: calls => objects (writes ++ [(index, value)]) calls
  | .save id :: calls => (id, writes) :: objects [] calls

end InsertCall

namespace SQLiteRowInsert

section
variable (codecs : Codecs) (all : List SQLiteCollection)

/-- A call, with the number of objects that are saved. A `save` that fails changes nothing. -/
def call (state : SQLiteRowInsert × Nat) : InsertCall → SQLiteRowInsert × Nat
  | .write index value => (state.1.write codecs all index value, state.2)
  | .save id =>
    match state.1.save id with
    | .ok insert => (insert, state.2 + 1)
    | .error _ => state

def run (insert : SQLiteRowInsert) (calls : List InsertCall) : SQLiteRowInsert × Nat :=
  calls.foldl (call codecs all) (insert, 0)

end

/-! ## The table -/

section
variable (unique : List Value → List Value → Bool)
  (spare : TableRows (List Value) → Option Int64)

/-- The rowid of a row that has none: the one behind the largest, and `spare`, some other that is
free, when that is in use. Without any, SQLite reports `SQLITE_FULL`. -/
def newRowid (table : TableRows (List Value)) : Result Int64 :=
  match table.ids.max? with
  | none => pure 1
  | some last =>
    if last < Int64.maxValue then pure (last + 1)
    else
      match spare table with
      | some id => pure id
      | none => fail (.dbError 13 "database or disk is full")

/-- One row of the statement. Only integers are bound to ids, and a null id asks for a new one. -/
def store (table : TableRows (List Value)) (row : List Value) :
    Result (TableRows (List Value)) :=
  match row.head? with
  | some (.integer id) => pure (table.insertRow unique id row.tail).1
  | _ => do
    let id ← newRowid spare table
    pure (table.insertRow unique id row.tail).1

/-- The table after `finish`, which executes the current statement whatever is left to save. -/
def finishTable (insert : SQLiteRowInsert) (table : TableRows (List Value)) :
    Result (TableRows (List Value)) :=
  insert.finish.foldlM (store unique spare) table

end

end SQLiteRowInsert

end IsarPlus.Sqlite
