import IsarPlus.Lib.Scalar

/-!
# Data types and values

`isar_core/src/core/data_type.rs`, `core/value.rs` and the static sizes of
`native/native_collection.rs:357-370`. A string is its list of Unicode scalar values; a string
slice of a stored object is its UTF-8 bytes.
-/

namespace IsarPlus
open Scalar

/-- `DataType` (`core/data_type.rs:4-24`). -/
inductive DataType where
  | bool | byte | int | float | long | double | string | object | json
  | boolList | byteList | intList | floatList | longList | doubleList | stringList | objectList
  deriving DecidableEq, Repr

namespace DataType

/-- `DataType::element_type` (`core/data_type.rs:31-43`). -/
def elementType : DataType → Option DataType
  | boolList => some bool
  | byteList => some byte
  | intList => some int
  | floatList => some float
  | longList => some long
  | doubleList => some double
  | stringList => some string
  | objectList => some object
  | _ => none

/-- `DataType::is_list` (`core/data_type.rs:27-29`). -/
def isList (t : DataType) : Bool := t.elementType.isSome

/-- `DataType::static_size` (`native/native_collection.rs:357-370`): the scalar's width, or the
three bytes of an offset into the dynamic section. -/
def staticSize : DataType → Nat
  | bool | byte => 1
  | int | float => 4
  | long | double => 8
  | _ => 3

theorem staticSize_pos (t : DataType) : 0 < t.staticSize := by cases t <;> decide

theorem staticSize_le (t : DataType) : t.staticSize ≤ 8 := by cases t <;> decide

end DataType

/-- `IsarValue` (`core/value.rs:1-7`). -/
inductive IsarValue where
  | bool (value : Bool)
  | integer (value : Int64)
  | real (value : F64)
  | string (value : List Char)
  deriving DecidableEq, Repr

namespace IsarValue

/-- `IsarValue::MAX_STRING` (`core/value.rs:10`). -/
def maxString : List Char := [Char.ofNat 0x10ffff]

def bool? : IsarValue → Option Bool
  | .bool value => some value
  | _ => none

def i64? : IsarValue → Option Int64
  | .integer value => some value
  | _ => none

/-- `IsarValue::u8`: an integer outside the byte range gives `None`. -/
def u8? (v : IsarValue) : Option UInt8 := v.i64?.bind toU8?

/-- `IsarValue::i32`: an integer outside the 32-bit range gives `None`. -/
def i32? (v : IsarValue) : Option Int32 := v.i64?.bind toI32?

def real? : IsarValue → Option F64
  | .real value => some value
  | _ => none

def string? : IsarValue → Option (List Char)
  | .string value => some value
  | _ => none

end IsarValue

/-! ## Null sentinels (`native/mod.rs:20-29`) -/

def falseBool : UInt8 := 0
def trueBool : UInt8 := 1
def nullBool : UInt8 := 255
def nullInt : Int32 := Int32.minValue
def nullLong : Int64 := Int64.minValue
def nullFloat : F32 := F32.nan
def nullDouble : F64 := F64.nan

/-- `MAX_OBJ_SIZE` (`native/mod.rs:29`). -/
def maxObjSize : Nat := 2 <<< 24

end IsarPlus
