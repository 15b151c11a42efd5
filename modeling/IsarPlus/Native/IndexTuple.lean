import IsarPlus.Native.Index

/-!
# Indexed values

The tuple of property values that an index sees in an object, and its key as a function of that
tuple.
-/

namespace IsarPlus.Native
open ByteBuffer Scalar

/-- A value read for `create_key`; a string is its UTF-8 bytes. -/
inductive IndexValue where
  | bool (value : Option Bool)
  | byte (value : UInt8)
  | int (value : Int32)
  | float (value : F32)
  | long (value : Int64)
  | double (value : F64)
  | string (value : Option Bytes)
  deriving DecidableEq

namespace IndexValue

/-- The value is null; a byte never is. -/
def isNull : IndexValue → Bool
  | bool value => value.isNone
  | byte _ => false
  | int value => value == nullInt
  | float value => value.isNan
  | long value => value == nullLong
  | double value => value.isNan
  | string value => value.isNone

/-- The value of a property in an object. -/
def read (object : IsarDeserializer) (p : NativeProperty) : Option IndexValue :=
  match p.dataType with
  | .bool => (object.readBool p.offset).map bool
  | .byte => (object.readByte p.offset).map byte
  | .int => (object.readInt p.offset).map int
  | .float => (object.readFloat p.offset).map float
  | .long => (object.readLong p.offset).map long
  | .double => (object.readDouble p.offset).map double
  | .string => (object.readString p.offset).map string
  | _ => none

/-- The key with one more value. -/
def addTo (key : IndexKey) : IndexValue → IndexKey
  | bool value => key.addBool value
  | byte value => key.addByte value
  | int value => key.addInt value
  | float value => key.addFloat value
  | long value => key.addLong value
  | double value => key.addDouble value
  | string value => key.addString value

theorem containsNull_addTo (key : IndexKey) (v : IndexValue) :
    (addTo key v).containsNull = (key.containsNull || v.isNull) := by
  cases v with
  | bool value => cases value <;> simp [addTo, IndexKey.addBool, isNull]
  | byte value => simp [addTo, IndexKey.addByte, isNull]
  | int value => simp [addTo, IndexKey.addInt, isNull, nullInt]
  | float value => by_cases h : value.isNan <;> simp [addTo, IndexKey.addFloat, isNull, h]
  | long value => simp [addTo, IndexKey.addLong, isNull, nullLong]
  | double value => by_cases h : value.isNan <;> simp [addTo, IndexKey.addDouble, isNull, h]
  | string value => cases value <;> simp [addTo, IndexKey.addString, isNull]

theorem containsNull_foldl (key : IndexKey) (values : List IndexValue) :
    (values.foldl addTo key).containsNull = (key.containsNull || values.any isNull) := by
  induction values generalizing key with
  | nil => simp
  | cons v values ih => rw [List.foldl_cons, ih, containsNull_addTo, List.any_cons, Bool.or_assoc]

end IndexValue

namespace NativeIndex

/-- The indexed values of an object, in the order of the index. -/
def tuple (index : NativeIndex) (object : IsarDeserializer) : Option (List IndexValue) :=
  index.properties.mapM (IndexValue.read object)

/-- The key bytes of a tuple. -/
def encode (xxh3_64 : Bytes → UInt64) (index : NativeIndex) (values : List IndexValue) : Bytes :=
  let key := values.foldl IndexValue.addTo IndexKey.min
  if index.hash then beBytes 8 (key.hash xxh3_64).toNat else (key.finish xxh3_64).1

theorem addProperty_eq (object : IsarDeserializer) (key : IndexKey) (p : NativeProperty) :
    addProperty object key p = (IndexValue.read object p).map (IndexValue.addTo key) := by
  unfold addProperty IndexValue.read
  cases p.dataType <;> simp [Function.comp_def, IndexValue.addTo]

theorem foldlM_addProperty (object : IsarDeserializer) (properties : List NativeProperty)
    (key : IndexKey) :
    properties.foldlM (addProperty object) key =
      (properties.mapM (IndexValue.read object)).map (·.foldl IndexValue.addTo key) := by
  induction properties generalizing key with
  | nil => simp
  | cons p properties ih =>
    rw [List.foldlM_cons, addProperty_eq, List.mapM_cons]
    cases IndexValue.read object p with
    | none => simp
    | some v =>
      simp only [Option.map_some, Option.bind_eq_bind, Option.bind_some, ih]
      cases properties.mapM (IndexValue.read object) <;> simp

/-- The key depends on the object through its indexed values alone, and its flag says whether one
of them is null. -/
theorem createKey_eq (xxh3_64 : Bytes → UInt64) (index : NativeIndex) (object : IsarDeserializer) :
    index.createKey xxh3_64 object =
      (index.tuple object).map fun values =>
        (index.encode xxh3_64 values, values.any IndexValue.isNull) := by
  unfold createKey tuple encode
  rw [foldlM_addProperty]
  cases index.properties.mapM (IndexValue.read object) with
  | none => simp
  | some values =>
    have flag := IndexValue.containsNull_foldl IndexKey.min values
    simp only [IndexKey.min, Bool.false_or] at flag
    simp only [Option.map_some, Option.bind_eq_bind, Option.bind_some, IndexKey.min]
    split
    · simp [flag]
    · unfold IndexKey.finish
      split <;> simp [flag]

end NativeIndex

end IsarPlus.Native
