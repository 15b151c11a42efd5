import IsarPlus.Native.Writer

/-!
# Reading native objects

`isar_core/src/native/native_reader.rs`: the `IsarReader` interface on the reader of an object and
of a list. A read is `none` where the Rust code panics; strings are read as their bytes.
-/

namespace IsarPlus.Native
open ByteBuffer Scalar

/-- `NativeReader` (`native_reader.rs:9-14`) and `NativeListReader` (`:176-181`), without the
collections that they share. -/
inductive Reader where
  | object (id : Int64) (d : IsarDeserializer) (collection : NativeCollection)
  | list (d : IsarDeserializer) (dataType : DataType) (embeddedCollectionIndex : Option UInt16)

namespace Reader

/-- The bytes that are read. -/
def deserializer : Reader → IsarDeserializer
  | .object _ d _ => d
  | .list d _ _ => d

/-- The property of an index: the length of a list is not looked at. -/
def getProperty : Reader → UInt32 → Option NativeProperty
  | .object _ _ collection, index => collection.getProperty index.toUInt16
  | .list _ dataType embeddedCollectionIndex, index =>
    some { dataType
           offset := (index * UInt32.ofNat dataType.staticSize).toNat
           embeddedCollectionIndex }

/-- `read_id`. -/
def readId : Reader → Int64
  | .object id _ _ => id
  | .list _ _ _ => nullLong

/-- `is_null` (`native_reader.rs:72-78`, `:202-205`). -/
def isNull (r : Reader) (index : UInt32) : Option Bool :=
  match r.getProperty index with
  | some p => r.deserializer.isNull p.offset p.dataType
  | none => some true

/-- The reads of one type: an index of another type gives the type's null. -/
def readAt {α : Type} (r : Reader) (index : UInt32) (dataType : DataType) (null : α)
    (read : IsarDeserializer → Nat → Option α) : Option α :=
  match r.getProperty index with
  | some p => if p.dataType = dataType then read r.deserializer p.offset else some null
  | none => some null

def readBool (r : Reader) (index : UInt32) : Option (Option Bool) :=
  r.readAt index .bool none IsarDeserializer.readBool

def readByte (r : Reader) (index : UInt32) : Option UInt8 :=
  r.readAt index .byte 0 IsarDeserializer.readByte

def readInt (r : Reader) (index : UInt32) : Option Int32 :=
  r.readAt index .int nullInt IsarDeserializer.readInt

def readFloat (r : Reader) (index : UInt32) : Option F32 :=
  r.readAt index .float nullFloat IsarDeserializer.readFloat

def readLong (r : Reader) (index : UInt32) : Option Int64 :=
  r.readAt index .long nullLong IsarDeserializer.readLong

def readDouble (r : Reader) (index : UInt32) : Option F64 :=
  r.readAt index .double nullDouble IsarDeserializer.readDouble

/-- `read_string` (`native_reader.rs:134-143`, `:265-273`): JSON is a property of objects only. -/
def readString (r : Reader) (index : UInt32) : Option (Option Bytes) :=
  match r, r.getProperty index with
  | .object _ d _, some p =>
    if p.dataType = .string ∨ p.dataType = .json then d.readString p.offset else some none
  | .list d _ _, some p =>
    if p.dataType = .string then d.readString p.offset else some none
  | _, none => some none

/-- `read_blob` (`native_reader.rs:145-149`, `:275-277`). -/
def readBlob (r : Reader) (index : UInt32) : Option (Option Bytes) :=
  match r with
  | .object _ _ _ => r.readAt index .byteList none IsarDeserializer.readDynamic
  | .list _ _ _ => some none

/-- `read_object` (`native_reader.rs:151-167`, `:279-296`); a target that does not exist panics. -/
def readObject (all : List NativeCollection) (r : Reader) (index : UInt32) :
    Option (Option Reader) :=
  match r.getProperty index with
  | some p =>
    if p.dataType = .object then
      match r.deserializer.readNested p.offset with
      | some (some nested) =>
        match p.embeddedCollectionIndex with
        | some collectionIndex =>
          (all[collectionIndex.toNat]?).map fun collection =>
            some (.object Int64.minValue nested collection)
        | none => some none
      | some none => some none
      | none => none
    else some none
  | none => some none

/-- `read_list` (`native_reader.rs:169-180`, `:298-300`): the elements with their number. -/
def readList (r : Reader) (index : UInt32) : Option (Option (Reader × Nat)) :=
  match r, r.getProperty index with
  | .object _ d _, some p =>
    match p.dataType.elementType with
    | some elementType =>
      match d.readList p.offset elementType with
      | some (some (elements, length)) =>
        some (some (.list elements elementType p.embeddedCollectionIndex, length))
      | some none => some none
      | none => none
    | none => some none
  | _, _ => some none

end Reader

end IsarPlus.Native
