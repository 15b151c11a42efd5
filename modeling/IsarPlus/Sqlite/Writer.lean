import IsarPlus.Sqlite.Sql

/-!
# Writing JSON columns

`SQLiteObjectWriter` and `SQLiteListWriter` of `isar_core/src/sqlite/sqlite_writer.rs:162-426`. What
a caller does to a writer is a list of calls; those that write an object or a list (`begin_object`
with `end_object`, `begin_list` with `end_list`) carry the calls in between. `base64` is the
encoder `STANDARD_NO_PAD` of the base64 crate.
-/

namespace IsarPlus.Sqlite
open Scalar

/-- What is written for a property or an element. -/
inductive Written where
  | null
  | bool (value : Bool)
  | byte (value : UInt8)
  | int (value : Int32)
  | float (value : F32)
  | long (value : Int64)
  | double (value : F64)
  | string (value : List Char)
  | byteList (value : List UInt8)
  | object (writes : List (UInt32 × Written))
  | list (length : UInt32) (writes : List (UInt32 × Written))

/-! ## Maps -/

/-- `Map::insert`; the order of a map is not observed here. -/
def insertKey (key : String) (value : Json) (map : List (String × Json)) : List (String × Json) :=
  (key, value) :: map.filter (·.1 != key)

/-- `Map::remove`. -/
def removeKey (key : String) (map : List (String × Json)) : List (String × Json) :=
  map.filter (·.1 != key)

theorem lookup_cons_of_ne {key other : String} (ne : other ≠ key) (value : Json)
    (map : List (String × Json)) : List.lookup other ((key, value) :: map) = map.lookup other := by
  rw [List.lookup_cons, beq_eq_false_iff_ne.mpr ne]

@[simp] theorem lookup_removeKey (key other : String) (map : List (String × Json)) :
    (removeKey key map).lookup other = if other = key then none else map.lookup other := by
  induction map with
  | nil => simp [removeKey]
  | cons head map ih =>
    obtain ⟨name, value⟩ := head
    unfold removeKey at ih ⊢
    by_cases same : name = key
    · subst same
      rw [List.filter_cons_of_neg (by simp), ih]
      by_cases eq : other = name
      · simp [eq]
      · simp [eq, lookup_cons_of_ne eq]
    · rw [List.filter_cons_of_pos (by simp [same])]
      by_cases eq : other = name
      · subst eq
        simp [same]
      · rw [lookup_cons_of_ne eq, lookup_cons_of_ne eq, ih]

@[simp] theorem lookup_insertKey (key other : String) (value : Json) (map : List (String × Json)) :
    (insertKey key value map).lookup other =
      if other = key then some value else map.lookup other := by
  have removed := lookup_removeKey key other map
  by_cases eq : other = key
  · simp [insertKey, eq]
  · rw [insertKey, lookup_cons_of_ne eq]
    exact removed.trans (by simp [eq])

/-! ## Writers -/

/-- `SQLiteObjectWriter` (`sqlite_writer.rs:134-139`). -/
structure SQLiteObjectWriter where
  collection : SQLiteCollection
  propertyIndex : UInt16
  map : List (String × Json)

/-- `SQLiteListWriter` (`sqlite_writer.rs:284-289`). -/
structure SQLiteListWriter where
  collectionIndex : Option UInt16
  propertyIndex : UInt16
  list : List Json

/-- `f64::is_finite`. -/
def isFinite (value : F64) : Bool := value.magnitude < 2047 * 2 ^ 52

/-- `Number::from_f64`. -/
def fromF64 (value : F64) : Option Json :=
  if isFinite value then some (.number (.real value)) else none

namespace SQLiteObjectWriter

def new (collection : SQLiteCollection) (propertyIndex : UInt16) : SQLiteObjectWriter :=
  { collection, propertyIndex, map := [] }

/-- A value that is written to the property of an index, if there is one. -/
def insert (w : SQLiteObjectWriter) (index : UInt32) (value : Json) : SQLiteObjectWriter :=
  match w.collection.getProperty index.toUInt16 with
  | some property => { w with map := insertKey property.name value w.map }
  | none => w

def writeNull (w : SQLiteObjectWriter) (index : UInt32) : SQLiteObjectWriter :=
  match w.collection.getProperty index.toUInt16 with
  | some property => { w with map := removeKey property.name w.map }
  | none => w

def writeBool (w : SQLiteObjectWriter) (index : UInt32) (value : Bool) : SQLiteObjectWriter :=
  w.insert index (.bool value)

def writeByte (w : SQLiteObjectWriter) (index : UInt32) (value : UInt8) : SQLiteObjectWriter :=
  w.insert index (.number (.integer value.toNat))

/-- `write_int`: nothing happens for the integer that stands for null. -/
def writeInt (w : SQLiteObjectWriter) (index : UInt32) (value : Int32) : SQLiteObjectWriter :=
  if value ≠ nullInt then w.insert index (.number (.integer value.toInt)) else w

/-- `write_float`, on the value as `f64`: nothing happens for a number that is not finite. -/
def writeDouble (w : SQLiteObjectWriter) (index : UInt32) (value : F64) : SQLiteObjectWriter :=
  if value.isNan then w
  else
    match fromF64 value with
    | some value => w.insert index value
    | none => w

def writeFloat (w : SQLiteObjectWriter) (index : UInt32) (value : F32) : SQLiteObjectWriter :=
  if value.isNan then w
  else
    match fromF64 value.toF64 with
    | some value => w.insert index value
    | none => w

def writeLong (w : SQLiteObjectWriter) (index : UInt32) (value : Int64) : SQLiteObjectWriter :=
  if value ≠ nullLong then w.insert index (.number (.integer value.toInt)) else w

def writeString (w : SQLiteObjectWriter) (index : UInt32) (value : List Char) :
    SQLiteObjectWriter :=
  w.insert index (.string value)

def writeByteList (base64 : List UInt8 → List Char) (w : SQLiteObjectWriter) (index : UInt32)
    (value : List UInt8) : SQLiteObjectWriter :=
  w.writeString index (base64 value)

/-- `begin_object`; a target that does not exist panics. -/
def beginObject (all : List SQLiteCollection) (w : SQLiteObjectWriter) (index : UInt32) :
    Option SQLiteObjectWriter := do
  let property ← w.collection.getProperty index.toUInt16
  let collectionIndex ← property.collectionIndex
  let target ← all[collectionIndex.toNat]?
  pure (new target index.toUInt16)

def beginList (w : SQLiteObjectWriter) (index length : UInt32) : Option SQLiteListWriter := do
  let property ← w.collection.getProperty index.toUInt16
  pure { collectionIndex := property.collectionIndex
         propertyIndex := index.toUInt16
         list := List.replicate length.toNat .null }

def endObject (w inner : SQLiteObjectWriter) : SQLiteObjectWriter :=
  match w.collection.getProperty inner.propertyIndex with
  | some property => { w with map := insertKey property.name (.object inner.map) w.map }
  | none => w

def endList (w : SQLiteObjectWriter) (inner : SQLiteListWriter) : SQLiteObjectWriter :=
  match w.collection.getProperty inner.propertyIndex with
  | some property => { w with map := insertKey property.name (.array inner.list) w.map }
  | none => w

end SQLiteObjectWriter

namespace SQLiteListWriter

/-- A value that is written to an index; one past the end is dropped. -/
def set (w : SQLiteListWriter) (index : Nat) (value : Json) : SQLiteListWriter :=
  if index < w.list.length then { w with list := w.list.set index value } else w

def writeNull (w : SQLiteListWriter) (index : UInt32) : SQLiteListWriter :=
  w.set index.toNat .null

def writeBool (w : SQLiteListWriter) (index : UInt32) (value : Bool) : SQLiteListWriter :=
  w.set index.toNat (.bool value)

def writeByte (w : SQLiteListWriter) (index : UInt32) (value : UInt8) : SQLiteListWriter :=
  w.set index.toNat (.number (.integer value.toNat))

def writeInt (w : SQLiteListWriter) (index : UInt32) (value : Int32) : SQLiteListWriter :=
  w.set index.toNat (if value ≠ nullInt then .number (.integer value.toInt) else .null)

def writeFloat (w : SQLiteListWriter) (index : UInt32) (value : F32) : SQLiteListWriter :=
  w.set index.toNat (if value.isNan then .null else (fromF64 value.toF64).getD .null)

def writeLong (w : SQLiteListWriter) (index : UInt32) (value : Int64) : SQLiteListWriter :=
  w.set index.toNat (if value ≠ nullLong then .number (.integer value.toInt) else .null)

def writeDouble (w : SQLiteListWriter) (index : UInt32) (value : F64) : SQLiteListWriter :=
  w.set index.toNat (if value.isNan then .null else (fromF64 value).getD .null)

def writeString (w : SQLiteListWriter) (index : UInt32) (value : List Char) : SQLiteListWriter :=
  w.set index.toNat (.string value)

/-- `begin_object`; a target that does not exist panics. -/
def beginObject (all : List SQLiteCollection) (w : SQLiteListWriter) (index : UInt32) :
    Option SQLiteObjectWriter := do
  let collectionIndex ← w.collectionIndex
  let target ← all[collectionIndex.toNat]?
  pure (.new target index.toUInt16)

/-- `end_object`: the index of the element has gone through `u16`. -/
def endObject (w : SQLiteListWriter) (inner : SQLiteObjectWriter) : SQLiteListWriter :=
  w.set inner.propertyIndex.toNat (.object inner.map)

end SQLiteListWriter

section
variable (base64 : List UInt8 → List Char) (all : List SQLiteCollection)

mutual

/-- The calls that write one property of an object. -/
def SQLiteObjectWriter.write (w : SQLiteObjectWriter) (index : UInt32) :
    Written → SQLiteObjectWriter
  | .null => w.writeNull index
  | .bool value => w.writeBool index value
  | .byte value => w.writeByte index value
  | .int value => w.writeInt index value
  | .float value => w.writeFloat index value
  | .long value => w.writeLong index value
  | .double value => w.writeDouble index value
  | .string value => w.writeString index value
  | .byteList value => w.writeByteList base64 index value
  | .object writes =>
    match w.beginObject all index with
    | some inner => w.endObject (inner.writeAll writes)
    | none => w
  | .list length writes =>
    match w.beginList index length with
    | some inner => w.endList (inner.writeAll writes)
    | none => w

def SQLiteObjectWriter.writeAll (w : SQLiteObjectWriter) :
    List (UInt32 × Written) → SQLiteObjectWriter
  | [] => w
  | (index, value) :: writes => (w.write index value).writeAll writes

/-- The calls that write one element of a list; there are no lists in lists and no byte lists. -/
def SQLiteListWriter.write (w : SQLiteListWriter) (index : UInt32) : Written → SQLiteListWriter
  | .null => w.writeNull index
  | .bool value => w.writeBool index value
  | .byte value => w.writeByte index value
  | .int value => w.writeInt index value
  | .float value => w.writeFloat index value
  | .long value => w.writeLong index value
  | .double value => w.writeDouble index value
  | .string value => w.writeString index value
  | .byteList _ | .list _ _ => w
  | .object writes =>
    match w.beginObject all index with
    | some inner => w.endObject (inner.writeAll writes)
    | none => w

def SQLiteListWriter.writeAll (w : SQLiteListWriter) :
    List (UInt32 × Written) → SQLiteListWriter
  | [] => w
  | (index, value) :: writes => (w.write index value).writeAll writes

end

end

end IsarPlus.Sqlite
