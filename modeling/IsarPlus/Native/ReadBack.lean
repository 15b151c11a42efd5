import IsarPlus.Native.Layout

/-!
# Trees that read back

A reader gives back a tree of writes: every value is read as it was written, null where it is the
null of its type, and no read of a nested reader leaves the buffer.
-/

namespace IsarPlus.Native
open Scalar
open Sqlite (Written)

namespace Reader

section
variable (all : List NativeCollection)

/-- No read of the index leaves the buffer. -/
structure Safe (r : Reader) (index : UInt32) : Prop where
  isNull : (r.isNull index).isSome
  bool : (r.readBool index).isSome
  byte : (r.readByte index).isSome
  int : (r.readInt index).isSome
  float : (r.readFloat index).isSome
  long : (r.readLong index).isSome
  double : (r.readDouble index).isSome
  string : (r.readString index).isSome
  blob : (r.readBlob index).isSome
  object : (r.readObject all index).isSome
  list : (r.readList index).isSome

/-- The offset of an index of a list does not wrap in `u32`. -/
def InRange : Reader → UInt32 → Prop
  | .object _ _ _, _ => True
  | .list _ dataType _, index => index.toNat * dataType.staticSize < 2 ^ 32

/-- The null of a type; a byte has none and reads as zero. -/
def ReadsNull (r : Reader) (index : UInt32) (dataType : DataType) : Prop :=
  r.isNull index = some (dataType != .byte) ∧
  match dataType with
  | .bool => r.readBool index = some none
  | .byte => r.readByte index = some 0
  | .int => r.readInt index = some nullInt
  | .float => r.readFloat index = some nullFloat
  | .long => r.readLong index = some nullLong
  | .double => r.readDouble index = some nullDouble
  | .string | .json => r.readString index = some none
  | .object => r.readObject all index = some none
  | .byteList => r.readBlob index = some none ∧ r.readList index = some none
  | _ => r.readList index = some none

mutual

/-- An index reads as the value that was written to it. -/
def ReadsBack (r : Reader) (index : UInt32) (dataType : DataType) : Written → Prop
  | .null => ReadsNull all r index dataType
  | .bool value => r.readBool index = some (some value) ∧ r.isNull index = some false
  | .byte value => r.readByte index = some value ∧ r.isNull index = some false
  | .int value => r.readInt index = some value ∧ r.isNull index = some (value == nullInt)
  | .float value => r.readFloat index = some value ∧ r.isNull index = some value.isNan
  | .long value => r.readLong index = some value ∧ r.isNull index = some (value == nullLong)
  | .double value => r.readDouble index = some value ∧ r.isNull index = some value.isNan
  | .string value =>
    r.readString index = some (some (Utf8.encode value)) ∧ r.isNull index = some false
  | .byteList value => r.readBlob index = some (some value) ∧ r.isNull index = some false
  | .object writes =>
    r.isNull index = some false ∧ ∃ nested, r.readObject all index = some (some nested) ∧
      ReadsAll nested writes ∧ ∀ index, nested.InRange index → nested.Safe all index
  | .list length writes =>
    r.isNull index = some false ∧
      ∃ nested, r.readList index = some (some (nested, length.toNat)) ∧
        ReadsAll nested writes ∧ ∀ index, nested.InRange index → nested.Safe all index

def ReadsAll (r : Reader) : List (UInt32 × Written) → Prop
  | [] => True
  | (index, value) :: writes =>
    (∃ p, r.getProperty index = some p ∧ ReadsBack r index p.dataType value) ∧ ReadsAll r writes

end

end

end Reader

end IsarPlus.Native
