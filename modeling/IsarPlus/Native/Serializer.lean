import IsarPlus.Native.Deserializer

/-!
# Writing the binary format

`isar_core/src/native/isar_serializer.rs`. A serializer owns the whole buffer while it is open;
a nested serializer is opened over the same buffer and hands it back. A write is `none` where the
Rust code would panic: a slice out of bounds, a static slot past the static size, or a number
that does not fit its three bytes. Offsets and lengths are `u32` there and do not wrap in buffers of
less than 2^32 bytes, of which the model speaks.
-/

namespace IsarPlus.Native
open ByteBuffer Scalar

/-- `LittleEndian::write_u24(&mut b[off..], v)`, which asserts that `v` fits. -/
def writeU24 (b : Bytes) (off v : Nat) : Option Bytes := writeLe b off 3 v

/-- `Vec::resize(n, 0)` to a larger size. -/
def zeroExtend (b : Bytes) (n : Nat) : Bytes := b ++ List.replicate (n - b.length) 0

/-- `IsarSerializer` (`isar_serializer.rs:6-10`); `offset` is where the static section starts. -/
structure IsarSerializer where
  buffer : Bytes
  offset : Nat
  staticSize : Nat
  deriving DecidableEq

namespace IsarSerializer

/-- `IsarSerializer::new` (`isar_serializer.rs:13-25`). A buffer that is long enough keeps its
bytes; only the static size in front is rewritten. -/
def new (buffer : Bytes) (offset staticSize : Nat) : Option IsarSerializer := do
  let buffer := zeroExtend buffer (offset + staticSize + 3)
  let buffer ← writeU24 buffer offset staticSize
  pure { buffer, offset := offset + 3, staticSize }

/-- `write` (`isar_serializer.rs:27-31`). -/
def write (s : IsarSerializer) (offset : Nat) (bytes : Bytes) : Option IsarSerializer := do
  let buffer ← splice s.buffer (offset + s.offset) bytes
  pure { s with buffer }

/-- `write_static_checked` (`isar_serializer.rs:45-57`). -/
def writeStaticChecked (s : IsarSerializer) (offset : Nat) (bytes : Bytes) :
    Option IsarSerializer :=
  if offset + bytes.length ≤ s.staticSize then s.write offset bytes else none

/-- `write_u24` relative to the static section (`isar_serializer.rs:39-43`). -/
def writeU24 (s : IsarSerializer) (offset value : Nat) : Option IsarSerializer := do
  let buffer ← Native.writeU24 s.buffer (offset + s.offset) value
  pure { s with buffer }

/-- `write_u24_static_checked` (`isar_serializer.rs:59-63`). -/
def writeU24StaticChecked (s : IsarSerializer) (offset value : Nat) : Option IsarSerializer :=
  if offset + 3 ≤ s.staticSize then s.writeU24 offset value else none

def writeByte (s : IsarSerializer) (offset : Nat) (value : UInt8) : Option IsarSerializer :=
  s.writeStaticChecked offset [value]

def writeBool (s : IsarSerializer) (offset : Nat) (value : Bool) : Option IsarSerializer :=
  s.writeByte offset (if value then trueBool else falseBool)

def writeInt (s : IsarSerializer) (offset : Nat) (value : Int32) : Option IsarSerializer :=
  s.writeStaticChecked offset (i32Le value)

def writeFloat (s : IsarSerializer) (offset : Nat) (value : F32) : Option IsarSerializer :=
  s.writeStaticChecked offset (f32Le value)

def writeLong (s : IsarSerializer) (offset : Nat) (value : Int64) : Option IsarSerializer :=
  s.writeStaticChecked offset (i64Le value)

def writeDouble (s : IsarSerializer) (offset : Nat) (value : F64) : Option IsarSerializer :=
  s.writeStaticChecked offset (f64Le value)

/-- `write_null` (`isar_serializer.rs:65-76`). -/
def writeNull (s : IsarSerializer) (offset : Nat) : DataType → Option IsarSerializer
  | .bool => s.writeByte offset nullBool
  | .byte => s.writeByte offset 0
  | .int => s.writeInt offset nullInt
  | .float => s.writeFloat offset nullFloat
  | .long => s.writeLong offset nullLong
  | .double => s.writeDouble offset nullDouble
  | _ => s.writeU24StaticChecked offset 0

/-- `write_dynamic` (`isar_serializer.rs:111-121`): the slot points to the end of the buffer, where
the length and the bytes are appended. -/
def writeDynamic (s : IsarSerializer) (offset : Nat) (value : Bytes) : Option IsarSerializer := do
  let bufferLen := s.buffer.length
  let dynamicOffset := bufferLen - s.offset
  let s ← s.writeU24StaticChecked offset dynamicOffset
  let s := { s with buffer := zeroExtend s.buffer (bufferLen + value.length + 3) }
  let s ← s.writeU24 dynamicOffset value.length
  s.write (dynamicOffset + 3) value

/-- `update_dynamic` (`isar_serializer.rs:123-135`): in place when the new value is not longer. -/
def updateDynamic (s : IsarSerializer) (offset : Nat) (value : Bytes) :
    Option IsarSerializer := do
  let existing ← readU24 s.buffer (offset + s.offset)
  if existing ≠ 0 then
    let existingLen ← readU24 s.buffer (existing + s.offset)
    if value.length ≤ existingLen then
      let s ← s.writeU24 existing value.length
      s.write (existing + 3) value
    else s.writeDynamic offset value
  else s.writeDynamic offset value

/-- `begin_nested` (`isar_serializer.rs:137-141`): the outer serializer and the nested one that now
owns the buffer. -/
def beginNested (s : IsarSerializer) (offset staticSize : Nat) :
    Option (IsarSerializer × IsarSerializer) := do
  let nestedOffset := s.buffer.length
  let s ← s.writeU24StaticChecked offset (nestedOffset - s.offset)
  let nested ← new s.buffer nestedOffset staticSize
  pure ({ s with buffer := [] }, nested)

/-- `end_nested` (`isar_serializer.rs:143-145`). -/
def endNested (s nested : IsarSerializer) : IsarSerializer := { s with buffer := nested.buffer }

/-- `finish` (`isar_serializer.rs:147-149`). -/
def finish (s : IsarSerializer) : Bytes := s.buffer

end IsarSerializer

end IsarPlus.Native
