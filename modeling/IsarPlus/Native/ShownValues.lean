import IsarPlus.Core.Reader
import IsarPlus.Native.Insert
import IsarPlus.Native.StoredValues

/-!
# What a stored object shows

The values that the reads of a native object return, as a tree, and the tree that an object shows
when it was written field by field.
-/

namespace IsarPlus.Native
open Scalar
open Sqlite (Written)

/-- What the reads of a type return for its null; a byte has none. -/
def Reader.ShowsNull (all : List NativeCollection) (r : Reader) (index : UInt32) :
    DataType → Prop
  | .bool => r.readBool index = some none
  | .byte => False
  | .int => r.readInt index = some nullInt
  | .float => ∃ value, value.isNan = true ∧ r.readFloat index = some value
  | .long => r.readLong index = some nullLong
  | .double => ∃ value, value.isNan = true ∧ r.readDouble index = some value
  | .string | .json => r.readString index = some none
  | .object => r.readObject all index = some none
  | _ => r.readList index = some none

section
variable (all : List NativeCollection)

mutual

/-- The reads of an index return a value of a type. -/
def Shows (r : Reader) (index : UInt32) (t : DataType) : ReadValue → Prop
  | .null => r.isNull index = some true ∧ r.ShowsNull all index t
  | .bool value => t = .bool ∧ r.isNull index = some false ∧ r.readBool index = some (some value)
  | .byte value => t = .byte ∧ r.isNull index = some false ∧ r.readByte index = some value
  | .int value => t = .int ∧ value ≠ nullInt ∧ r.isNull index = some false ∧
      r.readInt index = some value
  | .float value => t = .float ∧ value.isNan = false ∧ r.isNull index = some false ∧
      r.readFloat index = some value
  | .long value => t = .long ∧ value ≠ nullLong ∧ r.isNull index = some false ∧
      r.readLong index = some value
  | .double value => t = .double ∧ value.isNan = false ∧ r.isNull index = some false ∧
      r.readDouble index = some value
  | .string value => (t = .string ∨ t = .json) ∧ r.isNull index = some false ∧
      r.readString index = some (some (Utf8.encode value))
  | .object idName properties => t = .object ∧ r.isNull index = some false ∧
      ∃ d c, r.readObject all index = some (some (.object Int64.minValue d c)) ∧
        idName = c.idName ∧
        properties.map (fun p => (p.1, p.2.1)) = c.properties.map (fun p => (p.1, p.2.dataType)) ∧
        ShowsProperties (.object Int64.minValue d c) 1 properties
  | .list elements => r.isNull index = some false ∧ ∃ nested e, t.elementType = some e ∧
      r.readList index = some (some (nested, elements.length)) ∧ ShowsElements nested 0 e elements

/-- The properties from an index on. -/
def ShowsProperties (r : Reader) (i : Nat) : List (String × DataType × ReadValue) → Prop
  | [] => True
  | (_, t, v) :: properties =>
    Shows r (UInt32.ofNat i) t v ∧ ShowsProperties r (i + 1) properties

def ShowsElements (r : Reader) (i : Nat) (t : DataType) : List ReadValue → Prop
  | [] => True
  | v :: elements => Shows r (UInt32.ofNat i) t v ∧ ShowsElements r (i + 1) t elements

end

/-- The reader of a stored object returns its id and values of all properties. -/
def NativeCollection.Shows (c : NativeCollection) (id : Int64) (object : Bytes)
    (reader : IsarReader) : Prop :=
  reader.idName = c.idName ∧ reader.id = id ∧
    reader.properties.map (fun p => (p.1, p.2.1)) =
      c.properties.map (fun p => (p.1, p.2.dataType)) ∧
    ∃ r, c.reader id object = some r ∧ ShowsProperties all r 1 reader.properties

/-! ## Written objects -/

/-- A float that is no number is null. -/
def shownFloat (value : F32) : ReadValue := if value.isNan then .null else .float value

def shownDouble (value : F64) : ReadValue := if value.isNan then .null else .double value

def shownInt (value : Int32) : ReadValue := if value = nullInt then .null else .int value

def shownLong (value : Int64) : ReadValue := if value = nullLong then .null else .long value

/-- A null of a type, which a byte shows as zero. -/
def shownNull : DataType → ReadValue
  | .byte => .byte 0
  | _ => .null

/-- What a property shows that was not written: its slot holds zeros. -/
def blank : DataType → ReadValue
  | .bool => .bool false
  | .byte => .byte 0
  | .int => .int 0
  | .float => .float ⟨0⟩
  | .long => .long 0
  | .double => .double ⟨0⟩
  | _ => .null

/-- The values of all properties in their order. -/
def NativeCollection.arranged (c : NativeCollection) (values : List (UInt32 × ReadValue)) :
    List (String × DataType × ReadValue) :=
  c.properties.zipIdx.map fun p =>
    (p.1.1, p.1.2.dataType,
      (values.lookup (UInt32.ofNat (p.2 + 1))).getD (blank p.1.2.dataType))

mutual

/-- What a written value shows. -/
def shownValue (p : NativeProperty) : Written → ReadValue
  | .null => shownNull p.dataType
  | .bool value => .bool value
  | .byte value => .byte value
  | .int value => shownInt value
  | .float value => shownFloat value
  | .long value => shownLong value
  | .double value => shownDouble value
  | .string value => .string value
  | .byteList value => .list (value.map .byte)
  | .object writes =>
    match p.embedded all with
    | some c => .object c.idName (c.arranged (shownAll (.object c) writes))
    | none => .null
  | .list length writes =>
    match p.dataType.elementType with
    | some t =>
      .list ((List.range length.toNat).map fun i =>
        ((shownAll (.list t p.embeddedCollectionIndex length) writes).lookup
          (UInt32.ofNat i)).getD .null)
    | none => .null

/-- The values of the indexes that were written. -/
def shownAll (w : WriterImpl) : List (UInt32 × Written) → List (UInt32 × ReadValue)
  | [] => []
  | (index, value) :: writes =>
    match w.property index with
    | some p => (index, shownValue p value) :: shownAll w writes
    | none => shownAll w writes

end

/-- The reader of an object that was written field by field. -/
def NativeCollection.writtenReader (c : NativeCollection) (id : Int64)
    (writes : List (UInt32 × Written)) : IsarReader where
  idName := c.idName
  id := id
  properties := c.arranged (shownAll all (.object c) writes)

end

end IsarPlus.Native
