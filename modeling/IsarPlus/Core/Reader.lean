import IsarPlus.Core.FilterJson
import IsarPlus.Core.Schema
import IsarPlus.Lib.JsonText

/-!
# Readers

The trait `IsarReader` (`isar_core/src/core/reader.rs`) and how its objects are serialised
(`core/ser.rs`). A reader is what its reads return: a value for every property of an object and for
every element of a list, in which the null of a type is null.
-/

namespace Scalar

def F32.isFinite (v : F32) : Bool := v.magnitude < 255 * 2 ^ 23

def F64.isFinite (v : F64) : Bool := v.magnitude < 2047 * 2 ^ 52

end Scalar

namespace IsarPlus
open Scalar JsonText

/-- What the reads of a property or of an element return. -/
inductive ReadValue where
  | null
  | bool (value : Bool)
  | byte (value : UInt8)
  | int (value : Int32)
  | float (value : F32)
  | long (value : Int64)
  | double (value : F64)
  | string (value : List Char)
  | object (idName : Option String) (properties : List (String × DataType × ReadValue))
  | list (elements : List ReadValue)

/-- The reader of an object with its name of the id, its id and its properties. -/
structure IsarReader where
  idName : Option String
  id : Int64
  properties : List (String × DataType × ReadValue)

namespace ReadValue

def isNull : ReadValue → Bool
  | null => true
  | _ => false

/-! A read of another type gives the null of its type. -/

def readBool : ReadValue → Option Bool
  | bool value => some value
  | _ => none

def readByte : ReadValue → UInt8
  | byte value => value
  | _ => 0

def readInt : ReadValue → Int32
  | int value => value
  | _ => nullInt

def readFloat : ReadValue → F32
  | float value => value
  | _ => nullFloat

def readLong : ReadValue → Int64
  | long value => value
  | _ => nullLong

def readDouble : ReadValue → F64
  | double value => value
  | _ => nullDouble

def readString : ReadValue → Option (List Char)
  | string value => some value
  | _ => none

/-- A nested object has no id. -/
def readObject : ReadValue → Option IsarReader
  | object idName properties => some { idName, id := Int64.minValue, properties }
  | _ => none

def readList : ReadValue → Option (List ReadValue)
  | list elements => some elements
  | _ => none

end ReadValue

/-- The value of an index of an object; properties count from one. -/
def IsarReader.value (reader : IsarReader) (index : Nat) : ReadValue :=
  if index = 0 then .null
  else ((reader.properties[index - 1]?).map fun p => p.2.2).getD .null

/-! ## Texts of the libraries -/

/-- `from_str` of `serde_json` and what it writes floats as, and `to_string` of floats. -/
structure Formats where
  fromStr : List Char → Option Json
  ryuF32 : F32 → Numeral
  ryuF64 : F64 → Numeral
  displayF32 : F32 → List Char
  displayF64 : F64 → List Char

namespace Formats

variable (formats : Formats)

mutual

/-- `serde_json::to_string` of a value; a map keeps its order. -/
def docOf : Json → Doc
  | .null => .null
  | .bool value => .bool value
  | .number (.integer value) => .number (JsonText.integer value)
  | .number (.real value) => .number (formats.ryuF64 value)
  | .string value => .string value
  | .array values => .array (docsOf values)
  | .object map => .object (entriesOf map)

def docsOf : List Json → List Doc
  | [] => []
  | value :: values => docOf value :: docsOf values

def entriesOf : List (String × Json) → List (List Char × Doc)
  | [] => []
  | (key, value) :: map => (key.toList, docOf value) :: entriesOf map

end

/-- `serialize_f32`: what is no number is null. -/
def docOfF32 (v : F32) : Doc := if F32.isFinite v then .number (formats.ryuF32 v) else .null

def docOfF64 (v : F64) : Doc := if F64.isFinite v then .number (formats.ryuF64 v) else .null

/-! ## Serialisation -/

/-- The values of a property that are neither objects nor lists (`ser.rs:37-98`). -/
def serializeScalar (t : DataType) (v : ReadValue) : Doc :=
  match t with
  | .bool => match v.readBool with
    | some value => .bool value
    | none => .null
  | .byte => if v.isNull then .null else .number (JsonText.integer v.readByte.toNat)
  | .int => if v.isNull then .null else .number (JsonText.integer v.readInt.toInt)
  | .float => if v.isNull then .null else formats.docOfF32 v.readFloat
  | .long => if v.isNull then .null else .number (JsonText.integer v.readLong.toInt)
  | .double => if v.isNull then .null else formats.docOfF64 v.readDouble
  | .string => match v.readString with
    | some value => .string value
    | none => .null
  | .json => match v.readString with
    | some value => match formats.fromStr value with
      | some parsed => formats.docOf parsed
      | none => .null
    | none => .null
  | _ => .null

/-- The elements of a list that are no objects (`ser.rs:160-215`). -/
def serializeElement (t : DataType) (v : ReadValue) : Doc :=
  match t with
  | .bool => match v.readBool with
    | some value => .bool value
    | none => .null
  | .byte => .number (JsonText.integer v.readByte.toNat)
  | .int => if v.readInt = nullInt then .null else .number (JsonText.integer v.readInt.toInt)
  | .float => if v.readFloat.isNan then .null else formats.docOfF32 v.readFloat
  | .long => if v.readLong = nullLong then .null else .number (JsonText.integer v.readLong.toInt)
  | .double => if v.readDouble.isNan then .null else formats.docOfF64 v.readDouble
  | .string | .json => match v.readString with
    | some value => .string value
    | none => .null
  | _ => .null

/-- The entry of an id that no property has been written as. -/
def idEntry (idName : Option String) (id : Int64) (names : List String) :
    List (List Char × Doc) :=
  match idName with
  | some name =>
    if names.contains name then [] else [(name.toList, .number (JsonText.integer id.toInt))]
  | none => []

mutual

/-- One turn of the loop over the properties (`ser.rs:31-118`). -/
def serializeValue (t : DataType) : ReadValue → Doc
  | .object idName properties =>
    if t = .object then
      .object (serializeProperties properties ++
        idEntry idName Int64.minValue (properties.map Prod.fst))
    else serializeScalar formats t (.object idName properties)
  | .list elements => match t.elementType with
    | some elementType => .array (serializeElements elementType elements)
    | none => serializeScalar formats t (.list elements)
  | v => serializeScalar formats t v

def serializeProperties : List (String × DataType × ReadValue) → List (List Char × Doc)
  | [] => []
  | (name, t, v) :: properties =>
    (name.toList, serializeValue t v) :: serializeProperties properties

/-- `IsarListSerialize` (`ser.rs:149-236`). -/
def serializeElements (t : DataType) : List ReadValue → List Doc
  | [] => []
  | .object idName properties :: elements =>
    (if t = .object then
      .object (serializeProperties properties ++
        idEntry idName Int64.minValue (properties.map Prod.fst))
    else serializeElement formats t (.object idName properties)) :: serializeElements t elements
  | v :: elements => serializeElement formats t v :: serializeElements t elements

end

/-- `serialize` on an object (`ser.rs:19-130`). -/
def serialize (reader : IsarReader) : Doc :=
  .object (formats.serializeProperties reader.properties ++
    idEntry reader.idName reader.id (reader.properties.map Prod.fst))

end Formats

end IsarPlus
