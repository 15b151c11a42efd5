import IsarPlus.Native.Collection
import IsarPlus.Sqlite.Writer

/-!
# Writing native objects

`isar_core/src/native/native_writer.rs`: the calls of the `IsarWriter` interface on the writer of
an insert, of a nested object and of a list. Nested writers take the buffer over and hand it back,
so that every call passes on a serializer. A call is `none` where the Rust code panics.
-/

namespace IsarPlus.Native
open Sqlite (Written)

/-- What tells the implementations of `WriterImpl` apart: `NativeInsert` and `NativeObjectWriter`
write the properties of a collection, `NativeListWriter` (`native_writer.rs:219-225`) elements. -/
inductive WriterImpl where
  | object (collection : NativeCollection)
  | list (elementType : DataType) (embeddedCollectionIndex : Option UInt16) (length : UInt32)

/-- The collection of an embedded object. -/
def NativeProperty.embedded (all : List NativeCollection) (p : NativeProperty) :
    Option NativeCollection := do
  let index ← p.embeddedCollectionIndex
  all[index.toNat]?

namespace WriterImpl

/-- `get_property` (`native_writer.rs:162-170`, `:205-213`, `:255-267`): the property index goes
through `u16`, the offset of an element is computed in `u32`. -/
def getProperty : WriterImpl → UInt32 → Option NativeProperty
  | .object collection, index => collection.getProperty index.toUInt16
  | .list elementType embeddedCollectionIndex length, index =>
    if index < length then
      some { dataType := elementType
             offset := (index * UInt32.ofNat elementType.staticSize).toNat
             embeddedCollectionIndex }
    else none

/-- `get_offset` (`native_writer.rs:16-24`). -/
def getOffset (w : WriterImpl) (index : UInt32) (dataType : DataType) : Option Nat :=
  match w.getProperty index with
  | some p => if p.dataType = dataType then some p.offset else none
  | none => none

/-- `write_null` (`native_writer.rs:45-50`). -/
def writeNull (w : WriterImpl) (s : IsarSerializer) (index : UInt32) : Option IsarSerializer :=
  match w.getProperty index with
  | some p => s.writeNull p.offset p.dataType
  | none => some s

/-- The calls that write a value of one type: nothing happens for an index of another type. -/
def writeAt (w : WriterImpl) (s : IsarSerializer) (index : UInt32) (dataType : DataType)
    (write : IsarSerializer → Nat → Option IsarSerializer) : Option IsarSerializer :=
  match w.getOffset index dataType with
  | some offset => write s offset
  | none => some s

def writeBool (w : WriterImpl) (s : IsarSerializer) (index : UInt32) (value : Bool) :
    Option IsarSerializer :=
  w.writeAt s index .bool fun s offset => s.writeBool offset value

def writeByte (w : WriterImpl) (s : IsarSerializer) (index : UInt32) (value : UInt8) :
    Option IsarSerializer :=
  w.writeAt s index .byte fun s offset => s.writeByte offset value

def writeInt (w : WriterImpl) (s : IsarSerializer) (index : UInt32) (value : Int32) :
    Option IsarSerializer :=
  w.writeAt s index .int fun s offset => s.writeInt offset value

def writeFloat (w : WriterImpl) (s : IsarSerializer) (index : UInt32) (value : Scalar.F32) :
    Option IsarSerializer :=
  w.writeAt s index .float fun s offset => s.writeFloat offset value

def writeLong (w : WriterImpl) (s : IsarSerializer) (index : UInt32) (value : Int64) :
    Option IsarSerializer :=
  w.writeAt s index .long fun s offset => s.writeLong offset value

def writeDouble (w : WriterImpl) (s : IsarSerializer) (index : UInt32) (value : Scalar.F64) :
    Option IsarSerializer :=
  w.writeAt s index .double fun s offset => s.writeDouble offset value

/-- `write_string` (`native_writer.rs:94-101`), also for JSON. -/
def writeString (w : WriterImpl) (s : IsarSerializer) (index : UInt32) (value : List Char) :
    Option IsarSerializer :=
  match w.getProperty index with
  | some p =>
    if p.dataType = .string ∨ p.dataType = .json then s.writeDynamic p.offset (Utf8.encode value)
    else some s
  | none => some s

def writeByteList (w : WriterImpl) (s : IsarSerializer) (index : UInt32) (value : Bytes) :
    Option IsarSerializer :=
  w.writeAt s index .byteList fun s offset => s.writeDynamic offset value

/-- `begin_object` (`native_writer.rs:110-124`): the nested writer with the serializers of the outer
and of the nested object. -/
def beginObject (all : List NativeCollection) (w : WriterImpl) (s : IsarSerializer)
    (index : UInt32) : Option (Option (WriterImpl × IsarSerializer × IsarSerializer)) :=
  match w.getProperty index with
  | some p =>
    match p.dataType, p.embeddedCollectionIndex with
    | .object, some collectionIndex => do
      let collection ← all[collectionIndex.toNat]?
      let (s, nested) ← s.beginNested p.offset collection.staticSize
      pure (some (.object collection, s, nested))
    | _, _ => some none
  | none => some none

/-- `begin_list` (`native_writer.rs:130-148`): the static size is computed in `u32`; the index of a
property that is no list is set to null. -/
def beginList (w : WriterImpl) (s : IsarSerializer) (index length : UInt32) :
    Option (IsarSerializer × Option (WriterImpl × IsarSerializer)) :=
  match w.getProperty index with
  | some p =>
    match p.dataType.elementType with
    | some elementType => do
      let staticSize := UInt32.ofNat elementType.staticSize * length
      let (s, nested) ← s.beginNested p.offset staticSize.toNat
      pure (s, some (.list elementType p.embeddedCollectionIndex length, nested))
    | none => do
      let s ← w.writeNull s index
      pure (s, none)
  | none => some (s, none)

section
variable (all : List NativeCollection)

mutual

/-- The calls that write one property or element. -/
def write (w : WriterImpl) (s : IsarSerializer) (index : UInt32) :
    Written → Option IsarSerializer
  | .null => w.writeNull s index
  | .bool value => w.writeBool s index value
  | .byte value => w.writeByte s index value
  | .int value => w.writeInt s index value
  | .float value => w.writeFloat s index value
  | .long value => w.writeLong s index value
  | .double value => w.writeDouble s index value
  | .string value => w.writeString s index value
  | .byteList value => w.writeByteList s index value
  | .object writes =>
    match w.beginObject all s index with
    | some (some (inner, s, nested)) => (inner.writeAll nested writes).map s.endNested
    | some none => some s
    | none => none
  | .list length writes =>
    match w.beginList s index length with
    | some (s, some (inner, nested)) => (inner.writeAll nested writes).map s.endNested
    | some (s, none) => some s
    | none => none

def writeAll (w : WriterImpl) (s : IsarSerializer) :
    List (UInt32 × Written) → Option IsarSerializer
  | [] => some s
  | (index, value) :: writes =>
    match w.write s index value with
    | some s => w.writeAll s writes
    | none => none

end

end

end WriterImpl

end IsarPlus.Native
