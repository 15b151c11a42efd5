import IsarPlus.Sqlite.Insert

/-!
# Reading rows

`isar_core/src/sqlite/sqlite_reader.rs`: the `IsarReader` interface on a row, on the JSON of an
object and on that of a list. A read is `none` only where the Rust code panics.
-/

namespace IsarPlus.Sqlite
open Scalar Sql

/-- What SQLite makes of a value where a column is read as another storage class. -/
structure Casts where
  text : Value → List Char
  integer : Value → Int64
  real : Value → F64

/-- The columns of `SQLiteStatement` (`sqlite3.rs:316-361`) on a row. -/
structure SQLiteStatement where
  casts : Casts
  columns : List Value

namespace SQLiteStatement

/-- The value of a column; one that does not exist is null. -/
def column (stmt : SQLiteStatement) (col : UInt32) : Value := (stmt.columns[col.toNat]?).getD .null

def isNull (stmt : SQLiteStatement) (col : UInt32) : Bool := stmt.column col = .null

def getLong (stmt : SQLiteStatement) (col : UInt32) : Int64 :=
  match stmt.column col with
  | .integer value => value
  | .null => 0
  | value => stmt.casts.integer value

/-- `get_int`: the lower half of the integer. -/
def getInt (stmt : SQLiteStatement) (col : UInt32) : Int32 := (stmt.getLong col).toInt32

def getDouble (stmt : SQLiteStatement) (col : UInt32) : F64 :=
  match stmt.column col with
  | .real value => value
  | .integer value => F64.ofInt value.toInt
  | .null => ⟨0⟩
  | value => stmt.casts.real value

def getText (stmt : SQLiteStatement) (col : UInt32) : List Char :=
  match stmt.column col with
  | .text value => value
  | .null => []
  | value => stmt.casts.text value

def getBlob (stmt : SQLiteStatement) (col : UInt32) : List UInt8 :=
  match stmt.column col with
  | .blob value => value
  | .null => []
  | .text value => Utf8.encode value
  | value => Utf8.encode (stmt.casts.text value)

end SQLiteStatement

/-- `SQLiteReader`, `SQLiteObjectReader` and `SQLiteListReader` (`sqlite_reader.rs:8-12`,
`:150-154`, `:285-289`), without the collections that they share. -/
inductive Reader where
  | row (stmt : SQLiteStatement) (collection : SQLiteCollection)
  | object (map : List (String × Json)) (collection : SQLiteCollection)
  | list (elements : List Json) (collectionIndex : Option UInt16)

/-- `as_u64`. -/
def asU64 : JsonNumber → Option Nat
  | .integer v => if 0 ≤ v ∧ v < 2 ^ 64 then some v.toNat else none
  | .real _ => none

namespace Reader

/-- The JSON value of an index of an object or a list. -/
def value : Reader → UInt32 → Option Json
  | .row _ _, _ => none
  | .object map collection, index =>
    (collection.getProperty index.toUInt16).bind fun property => map.lookup property.name
  | .list elements _, index => elements[index.toNat]?

/-- `read_id`. -/
def readId : Reader → Int64
  | .row stmt _ => stmt.getLong 0
  | _ => Int64.minValue

/-- `is_null` (`sqlite_reader.rs:58-60`, `:182-189`, `:313-318`). -/
def isNull (r : Reader) (index : UInt32) : Bool :=
  match r with
  | .row stmt _ => stmt.isNull index
  | _ => match r.value index with
    | some value => value.isNull
    | none => true

def readBool (r : Reader) (index : UInt32) : Option Bool :=
  match r with
  | .row stmt _ => if stmt.isNull index then none else some (stmt.getInt index != 0)
  | _ => match r.value index with
    | some (.bool value) => some value
    | _ => none

def readByte (r : Reader) (index : UInt32) : UInt8 :=
  match r with
  | .row stmt _ => (stmt.getInt index).toUInt32.toUInt8
  | _ => match r.value index with
    | some (.number number) => match asU64 number with
      | some value => UInt8.ofNat value
      | none => 0
    | _ => 0

def readLong (r : Reader) (index : UInt32) : Int64 :=
  match r with
  | .row stmt _ =>
    let value := stmt.getLong index
    if value = 0 ∧ stmt.isNull index then Int64.minValue else value
  | _ => match r.value index with
    | some (.number number) => match number.asI64 with
      | some value => Int64.ofInt value
      | none => Int64.minValue
    | _ => Int64.minValue

/-- `read_int` (`sqlite_reader.rs:74-81`, `:211-213`, `:336-338`): of a JSON value the lower half of
`read_long`. -/
def readInt (r : Reader) (index : UInt32) : Int32 :=
  match r with
  | .row stmt _ =>
    let value := stmt.getInt index
    if value = 0 ∧ stmt.isNull index then Int32.minValue else value
  | _ => (r.readLong index).toInt32

def readDouble (r : Reader) (index : UInt32) : F64 :=
  match r with
  | .row stmt _ =>
    let value := stmt.getDouble index
    if value.eq ⟨0⟩ ∧ stmt.isNull index then F64.nan else value
  | _ => match r.value index with
    | some (.number number) => number.asF64
    | _ => F64.nan

/-- `read_float`: as a double, rounded. -/
def readFloat (r : Reader) (index : UInt32) : F32 := (r.readDouble index).toF32

def readString (r : Reader) (index : UInt32) : Option (List Char) :=
  match r with
  | .row stmt _ => if stmt.isNull index then none else some (stmt.getText index)
  | _ => match r.value index with
    | some (.string value) => some value
    | _ => none

section
variable (codecs : Codecs) (all : List SQLiteCollection)

/-- `read_blob` (`sqlite_reader.rs:109-116`, `:246-255`, `:371-373`). -/
def readBlob (r : Reader) (index : UInt32) : Option (List UInt8) :=
  match r with
  | .row stmt _ => if stmt.isNull index then none else some (stmt.getBlob index)
  | .object _ _ => match r.value index with
    | some (.string value) => codecs.decode value
    | _ => none
  | .list _ _ => none

/-- A nested object with the collection of its index, which must exist. -/
def nestedObject (map : List (String × Json)) (collectionIndex : UInt16) : Option (Option Reader) :=
  (all[collectionIndex.toNat]?).map fun collection => some (.object map collection)

/-- `read_object` (`sqlite_reader.rs:118-134`, `:257-270`, `:375-387`). -/
def readObject (r : Reader) (index : UInt32) : Option (Option Reader) :=
  match r with
  | .row stmt collection =>
    match (collection.getProperty index.toUInt16).bind SQLiteProperty.collectionIndex with
    | some collectionIndex => match codecs.fromStr (stmt.getText index) with
      | some (.object map) => nestedObject all map collectionIndex
      | _ => some none
    | none => some none
  | .object _ collection =>
    match r.value index with
    | some (.object map) =>
      ((collection.getProperty index.toUInt16).bind SQLiteProperty.collectionIndex).bind
        (nestedObject all map)
    | _ => some none
  | .list _ collectionIndex =>
    match r.value index with
    | some (.object map) => match collectionIndex with
      | some collectionIndex => nestedObject all map collectionIndex
      | none => some none
    | _ => some none

/-- `read_list` (`sqlite_reader.rs:136-147`, `:272-283`, `:389-391`): the elements with their
number. -/
def readList (r : Reader) (index : UInt32) : Option (Reader × UInt32) :=
  match r with
  | .row stmt collection => do
    let property ← collection.getProperty index.toUInt16
    match codecs.fromStr (stmt.getText index) with
    | some (.array elements) =>
      some (.list elements property.collectionIndex, UInt32.ofNat elements.length)
    | _ => none
  | .object _ collection => do
    let property ← collection.getProperty index.toUInt16
    match r.value index with
    | some (.array elements) =>
      some (.list elements property.collectionIndex, UInt32.ofNat elements.length)
    | _ => none
  | .list _ _ => none

end

end Reader

end IsarPlus.Sqlite
