import IsarPlus.Transfer.JsonImport

/-!
# Export and import

What an object shows is exported as a JSON document. What the values become that are read back from
its text: floats are the numbers that their texts are read as, and JSON is written anew.
-/

namespace IsarPlus
open Scalar JsonText

namespace Formats

/-- What the libraries promise: the text of an integer is read as that integer, and a JSON value has
no key twice, nor a list that is longer than its text can be. -/
structure Rereads (formats : Formats) (number : Numeral → JsonNumber) : Prop where
  integer : ∀ v : Int, -2 ^ 63 ≤ v → v < 2 ^ 63 → number (JsonText.integer v) = .integer v
  plain : ∀ s value, s.length < 2 ^ 32 → formats.fromStr s = some value →
    Native.Plain (Source.ofDoc number (formats.docOf value))

variable (formats : Formats) (number : Numeral → JsonNumber)

/-- The text of the JSON value that a JSON property holds. -/
def restoredJson (s : List Char) : ReadValue :=
  match formats.serializeScalar .json (.string s) with
  | .null => .null
  | doc => .string (text doc)

mutual

/-- What a value becomes that is exported and imported. -/
def restoredValue (t : DataType) : ReadValue → ReadValue
  | .float value =>
    Native.shownScalar Source.asF32 Native.shownFloat .null
      (Source.ofDoc number (formats.docOfF32 value))
  | .double value =>
    Native.shownScalar Source.asF64 Native.shownDouble .null
      (Source.ofDoc number (formats.docOfF64 value))
  | .string value => if t = .json then formats.restoredJson value else .string value
  | .object idName properties => .object idName (restoredProperties properties)
  | .list elements => match t.elementType with
    | some e => .list (restoredElements e elements)
    | none => .list elements
  | v => v

def restoredProperties :
    List (String × DataType × ReadValue) → List (String × DataType × ReadValue)
  | [] => []
  | (name, t, v) :: properties => (name, t, restoredValue t v) :: restoredProperties properties

def restoredElements (t : DataType) : List ReadValue → List ReadValue
  | [] => []
  | v :: elements => restoredValue t v :: restoredElements t elements

end

/-- An object that is imported under an id. -/
def restoredReader (reader : IsarReader) (id : Int64) : IsarReader where
  idName := reader.idName
  id := id
  properties := formats.restoredProperties number reader.properties

/-- The document of an export as it is read. -/
def exported (readers : List IsarReader) : Source :=
  Source.ofDoc number (.array (readers.map formats.serialize))

end Formats

/-- The id under which an exported object is imported: its own one, or the one of the string that
has its name. -/
def IsarReader.importedId (strToId : List Char → Int64) (reader : IsarReader) : Option Int64 :=
  match reader.idName with
  | some name => match reader.properties.lookup name with
    | some (t, v) => if t = .string then v.readString.map strToId else none
    | none => some reader.id
  | none => none

namespace Native

variable (all : List NativeCollection)

mutual

/-- A value that a property can show. -/
def Belongs (p : NativeProperty) : ReadValue → Prop
  | .null => p.dataType ≠ .byte
  | .bool _ => p.dataType = .bool
  | .byte _ => p.dataType = .byte
  | .int value => p.dataType = .int ∧ value ≠ nullInt
  | .float value => p.dataType = .float ∧ value.isNan = false
  | .long value => p.dataType = .long ∧ value ≠ nullLong
  | .double value => p.dataType = .double ∧ value.isNan = false
  | .string value => p.dataType = .string ∨ (p.dataType = .json ∧ value.length < 2 ^ 32)
  | .object idName properties => p.dataType = .object ∧ ∃ c, p.embedded all = some c ∧
      idName = c.idName ∧ PropertiesBelong c.properties properties
  | .list elements => elements.length < 2 ^ 32 ∧ ∃ e, p.dataType.elementType = some e ∧
      ElementsBelong { p with dataType := e } elements

/-- Values of all properties in their order. -/
def PropertiesBelong (own : List (String × NativeProperty)) :
    List (String × DataType × ReadValue) → Prop
  | [] => own = []
  | (name, t, v) :: properties => ∃ p rest, own = (name, p) :: rest ∧ t = p.dataType ∧
      Belongs p v ∧ PropertiesBelong rest properties

def ElementsBelong (p : NativeProperty) : List ReadValue → Prop
  | [] => True
  | v :: elements => Belongs p v ∧ ElementsBelong p elements

end

/-- An object is exported, and imported again under an id as these bytes: a value for each of its
properties is written, and what is then shown is what was exported, as it is read back. -/
structure NativeCollection.RestoredAs (formats : Formats) (number : Numeral → JsonNumber)
    (strToId : List Char → Int64) (c : NativeCollection) (reader : IsarReader)
    (saved : Int64 × Bytes) : Prop where
  id : reader.importedId strToId = some saved.1
  written : c.WrittenAs all strToId (Source.ofDoc number (formats.serialize reader)) saved
  shows : c.Shows all saved.1 saved.2 (formats.restoredReader number reader saved.1)

end Native

end IsarPlus
