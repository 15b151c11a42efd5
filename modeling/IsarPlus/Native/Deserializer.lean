import IsarPlus.Core.Data
import IsarPlus.Lib.ByteBuffer

/-!
# Reading the binary format

`isar_core/src/native/isar_deserializer.rs`. An object is a three-byte static size, a static
section and a dynamic section. A read is `none` exactly where the Rust code would index outside
the buffer; `some none` is a null.
-/

namespace IsarPlus.Native
open ByteBuffer Scalar

/-- `LittleEndian::read_u24(&b[off..])`. -/
def readU24 (b : Bytes) (off : Nat) : Option Nat := readLe b off 3

/-- `IsarDeserializer` (`isar_deserializer.rs:8-12`): the bytes after the static size. -/
structure IsarDeserializer where
  bytes : Bytes
  staticSize : Nat
  deriving DecidableEq

namespace IsarDeserializer

/-- `IsarDeserializer::from_bytes` (`isar_deserializer.rs:15-22`). -/
def fromBytes (bytes : Bytes) : Option IsarDeserializer := do
  let staticSize ← readU24 bytes 0
  pure { bytes := bytes.drop 3, staticSize }

/-- `IsarDeserializer::contains_offset`: objects written under a smaller layout end early. -/
def containsOffset (obj : IsarDeserializer) (offset : Nat) : Bool := offset < obj.staticSize

def readBool (obj : IsarDeserializer) (offset : Nat) : Option (Option Bool) :=
  if obj.containsOffset offset then
    (slice obj.bytes offset 1).map fun
      | [b] => if b = falseBool then some false else if b = trueBool then some true else none
      | _ => none
  else some none

def readByte (obj : IsarDeserializer) (offset : Nat) : Option UInt8 :=
  if obj.containsOffset offset then
    (slice obj.bytes offset 1).map fun bs => bs.headD 0
  else some 0

def readInt (obj : IsarDeserializer) (offset : Nat) : Option Int32 :=
  if obj.containsOffset offset then (slice obj.bytes offset 4).map leI32 else some nullInt

def readFloat (obj : IsarDeserializer) (offset : Nat) : Option F32 :=
  if obj.containsOffset offset then (slice obj.bytes offset 4).map leF32 else some nullFloat

def readLong (obj : IsarDeserializer) (offset : Nat) : Option Int64 :=
  if obj.containsOffset offset then (slice obj.bytes offset 8).map leI64 else some nullLong

def readDouble (obj : IsarDeserializer) (offset : Nat) : Option F64 :=
  if obj.containsOffset offset then (slice obj.bytes offset 8).map leF64 else some nullDouble

/-- `get_offset` (`isar_deserializer.rs:93-102`): offset 0 is null. -/
def getOffset (obj : IsarDeserializer) (offset : Nat) : Option (Option Nat) :=
  if obj.containsOffset offset then
    (readU24 obj.bytes offset).map fun o => if 0 < o then some o else none
  else some none

/-- `get_offset_length` (`isar_deserializer.rs:104-109`). -/
def getOffsetLength (obj : IsarDeserializer) (offset : Nat) : Option (Option (Nat × Nat)) := do
  match ← obj.getOffset offset with
  | none => pure none
  | some o =>
    let length ← readU24 obj.bytes o
    pure (some (o + 3, length))

/-- `read_dynamic` (`isar_deserializer.rs:111-116`). -/
def readDynamic (obj : IsarDeserializer) (offset : Nat) : Option (Option Bytes) := do
  match ← obj.getOffsetLength offset with
  | none => pure none
  | some (o, length) =>
    let bytes ← slice obj.bytes o length
    pure (some bytes)

/-- `read_string` (`isar_deserializer.rs:118-122`): the string slice over the dynamic bytes. -/
def readString (obj : IsarDeserializer) (offset : Nat) : Option (Option Bytes) :=
  obj.readDynamic offset

/-- `read_nested` (`isar_deserializer.rs:124-129`). -/
def readNested (obj : IsarDeserializer) (offset : Nat) : Option (Option IsarDeserializer) := do
  match ← obj.getOffset offset with
  | none => pure none
  | some o =>
    if o ≤ obj.bytes.length then
      let object ← fromBytes (obj.bytes.drop o)
      pure (some object)
    else none

/-- `read_list` (`isar_deserializer.rs:131-140`). -/
def readList (obj : IsarDeserializer) (offset : Nat) (elementType : DataType) :
    Option (Option (IsarDeserializer × Nat)) := do
  match ← obj.readNested offset with
  | none => pure none
  | some nested => pure (some (nested, nested.staticSize / elementType.staticSize))

/-- `is_null` (`isar_deserializer.rs:29-40`). -/
def isNull (obj : IsarDeserializer) (offset : Nat) : DataType → Option Bool
  | .bool => (obj.readBool offset).map Option.isNone
  | .byte => some !obj.containsOffset offset
  | .int => (obj.readInt offset).map (· == nullInt)
  | .float => (obj.readFloat offset).map F32.isNan
  | .long => (obj.readLong offset).map (· == nullLong)
  | .double => (obj.readDouble offset).map F64.isNan
  | _ => (obj.getOffsetLength offset).map Option.isNone

end IsarDeserializer

end IsarPlus.Native
