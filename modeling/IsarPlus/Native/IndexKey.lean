import IsarPlus.Native.Deserializer

/-!
# Index keys and object ids as bytes

`isar_core/src/native/index_key.rs` and the id codec of `native/mod.rs:31-53`. `xxh3_64` belongs
to the `xxhash_rust` crate and is a parameter throughout.
-/

namespace IsarPlus.Native
open ByteBuffer Scalar

/-- `to_be_bytes` of an `n`-byte number. -/
def beBytes (n v : Nat) : Bytes := (leBytes n v).reverse

/-- `IndexKey` (`index_key.rs:3-7`). -/
structure IndexKey where
  bytes : Bytes
  containsNull : Bool
  deriving DecidableEq, Repr

namespace IndexKey

/-- `MAX_INDEX_SIZE` (`index_key.rs:10`). -/
def maxIndexSize : Nat := 1024

/-- `IndexKey::min`, and `IndexKey::with_buffer` after it has cleared its buffer. -/
def min : IndexKey := { bytes := [], containsNull := false }

/-- `add_bool` (`index_key.rs:36-43`). -/
def addBool (k : IndexKey) : Option Bool → IndexKey
  | some value => { k with bytes := k.bytes ++ [if value then 2 else 1] }
  | none => { bytes := k.bytes ++ [0], containsNull := true }

/-- `add_byte` (`index_key.rs:45-47`). -/
def addByte (k : IndexKey) (value : UInt8) : IndexKey := { k with bytes := k.bytes ++ [value] }

/-- `add_int` (`index_key.rs:49-54`): big endian with the sign bit flipped. -/
def addInt (k : IndexKey) (value : Int32) : IndexKey where
  bytes := k.bytes ++ beBytes 4 (value.toUInt32 ^^^ 0x80000000).toNat
  containsNull := k.containsNull || value == Int32.minValue

/-- `add_long` (`index_key.rs:56-61`). -/
def addLong (k : IndexKey) (value : Int64) : IndexKey where
  bytes := k.bytes ++ beBytes 8 (value.toUInt64 ^^^ 0x8000000000000000).toNat
  containsNull := k.containsNull || value == Int64.minValue

/-- `add_float` (`index_key.rs:63-76`). -/
def addFloat (k : IndexKey) (value : F32) : IndexKey :=
  if value.isNan then { bytes := k.bytes ++ [0, 0, 0, 0], containsNull := true }
  else
    let bits := if value.isNegative then ~~~(value.bits ^^^ 0x80000000) - 0x80000000
      else value.bits + 0x80000000
    { k with bytes := k.bytes ++ beBytes 4 bits.toNat }

/-- `add_double` (`index_key.rs:78-91`). -/
def addDouble (k : IndexKey) (value : F64) : IndexKey :=
  if value.isNan then { bytes := k.bytes ++ [0, 0, 0, 0, 0, 0, 0, 0], containsNull := true }
  else
    let bits := if value.isNegative then ~~~(value.bits ^^^ 0x8000000000000000) - 0x8000000000000000
      else value.bits + 0x8000000000000000
    { k with bytes := k.bytes ++ beBytes 8 bits.toNat }

/-- `add_string` (`index_key.rs:93-104`): the empty string is the single byte 1 and null the
single byte 0, in front of nothing that would keep them apart from the strings `"\u{1}"` and
`"\u{0}"`. -/
def addString (k : IndexKey) : Option Bytes → IndexKey
  | some value => { k with bytes := k.bytes ++ if value.isEmpty then [1] else value }
  | none => { bytes := k.bytes ++ [0], containsNull := true }

/-- `finish` (`index_key.rs:106-113`): an over-long key keeps 1016 bytes and a hash of all. -/
def finish (xxh3_64 : Bytes → UInt64) (k : IndexKey) : Bytes × Bool :=
  if maxIndexSize < k.bytes.length then
    (k.bytes.take (maxIndexSize - 8) ++ beBytes 8 (xxh3_64 k.bytes).toNat, k.containsNull)
  else (k.bytes, k.containsNull)

/-- `hash` (`index_key.rs:115-117`). -/
def hash (xxh3_64 : Bytes → UInt64) (k : IndexKey) : UInt64 := xxh3_64 k.bytes

end IndexKey

/-! ## Object ids -/

/-- The little-endian integer key that an id has in the primary database. -/
def idKey (id : Int64) : UInt64 := id.toUInt64 ^^^ 0x8000000000000000

/-- `to_id` on the key of a primary database (`native/mod.rs:35-42`). -/
def idOfKey (key : UInt64) : Int64 := (key ^^^ 0x8000000000000000).toInt64

/-- `to_id_bytes` (`native/mod.rs:47-53`). -/
def toIdBytes (id : Int64) : Bytes := leBytes 8 (idKey id).toNat

/-- `to_id` (`native/mod.rs:35-42`), which panics unless it gets eight bytes. -/
def toId (bytes : Bytes) : Option Int64 :=
  if bytes.length = 8 then some (UInt64.ofNat (leNat bytes) ^^^ 0x8000000000000000).toInt64 else none

@[simp] theorem toId_toIdBytes (id : Int64) : toId (toIdBytes id) = some id := by
  have bound : (idKey id).toNat < 256 ^ 8 := (idKey id).toNat_lt
  simp only [toId, toIdBytes, length_leBytes, if_true, leNat_leBytes_of_lt bound,
    UInt64.ofNat_toNat]
  simp only [idKey, UInt64.xor_assoc, UInt64.xor_self, UInt64.xor_zero, Int64.toInt64_toUInt64]

theorem toIdBytes_injective {id id' : Int64} (h : toIdBytes id = toIdBytes id') : id = id' := by
  have := congrArg toId h
  simpa using this

theorem idKey_injective {id id' : Int64} (h : idKey id = idKey id') : id = id' :=
  toIdBytes_injective (by rw [toIdBytes, toIdBytes, h])

theorem idKey_idOfKey (key : UInt64) : idKey (idOfKey key) = key := by
  rw [idKey, idOfKey, UInt64.toUInt64_toInt64, UInt64.xor_assoc, UInt64.xor_self, UInt64.xor_zero]

end IsarPlus.Native
