import IsarPlus.Native.Layout

/-!
# The values of stored objects

Which values the properties of a stored object have, and the bytes that belong to each: its slot in
the static section and a range behind it. Updates change the bytes of one value after the other.
-/

namespace IsarPlus.Native
open ByteBuffer Scalar
open Sqlite (Written)

/-- The value of a property, with the place of its dynamic bytes. -/
structure StoredValue where
  name : String
  property : NativeProperty
  value : Written
  at_ : Nat

section
variable (all : List NativeCollection)

/-- The end of the dynamic bytes of a value. -/
def StoredValue.end_ (e : StoredValue) : Nat := e.at_ + dynamicSize all e.property e.value

/-- A value that stands in an object with `n` bytes in the static section. -/
structure StoredValue.Stands (b : Bytes) (n : Nat) (e : StoredValue) : Prop where
  slot : e.property.offset + e.property.dataType.staticSize ≤ n
  typed : Typed all e.property e.value
  fits : FitsAt all 3 e.at_ e.property e.value
  holds : Holds all b 3 e.at_ e.property e.value
  behind : 3 + n ≤ e.at_
  inside : e.end_ all ≤ b.length

/-- Two values share no byte. -/
structure StoredValue.Apart (e e' : StoredValue) : Prop where
  name : e.name ≠ e'.name
  slots : e.property.offset + e.property.dataType.staticSize ≤ e'.property.offset ∨
    e'.property.offset + e'.property.dataType.staticSize ≤ e.property.offset
  ranges : e.end_ all ≤ e'.at_ ∨ e'.end_ all ≤ e.at_

/-- An object that has these values. -/
structure Contains (b : Bytes) (n : Nat) (values : List StoredValue) : Prop where
  header : At b 0 (leBytes 3 n)
  small : Fits24 n
  room : 3 + n ≤ b.length
  stands : ∀ e ∈ values, e.Stands all b n
  apart : values.Pairwise fun e e' => e.Apart all e'

end

/-- The value of a slot that was not written. -/
def zeroValue : DataType → Written
  | .bool => .bool false
  | .byte => .byte 0
  | .int => .int 0
  | .float => .float ⟨0⟩
  | .long => .long 0
  | .double => .double ⟨0⟩
  | _ => .null

section
variable (all : List NativeCollection)

mutual

/-- The objects in a value have values for all their properties. -/
def Whole (p : NativeProperty) : Written → Prop
  | .object writes => ∃ c, p.embedded all = some c ∧
    (∀ index q, (WriterImpl.object c).property index = some q → index ∈ writes.map Prod.fst) ∧
    WholeAll (.object c) writes
  | .list length writes => ∃ elementType, p.dataType.elementType = some elementType ∧
    WholeAll (.list elementType p.embeddedCollectionIndex length) writes
  | _ => True

def WholeAll (w : WriterImpl) : List (UInt32 × Written) → Prop
  | [] => True
  | (index, value) :: writes =>
    (∃ p, w.property index = some p ∧ Whole p value) ∧ WholeAll w writes

end

end

/-- A property has a value, wherever its dynamic bytes stand. -/
def Has (values : List StoredValue) (name : String) (p : NativeProperty) (v : Written) : Prop :=
  ∃ at_, ⟨name, p, v, at_⟩ ∈ values

/-- What an update writes to a property of a type. -/
def updatedValue : DataType → Option IsarValue → Option Written
  | _, none => some .null
  | .bool, some (.bool v) => some (.bool v)
  | .byte, some (.integer v) => some (.byte v.toUInt64.toUInt8)
  | .int, some (.integer v) => some (.int v.toInt32)
  | .long, some (.integer v) => some (.long v)
  | .float, some (.real v) => some (.float v.toF32)
  | .double, some (.real v) => some (.double v)
  | .string, some (.string v) => some (.string v)
  | .json, some (.string v) => some (.string v)
  | _, _ => none

/-- What the last update of an index writes, if there is one. -/
def lastUpdate (updates : List (UInt16 × Option IsarValue)) (index : UInt16) :
    Option (Option IsarValue) :=
  (updates.reverse.find? fun u => u.1 == index).map Prod.snd

/-- A property of the type has the value that the updates leave of the old one. -/
def Updated (updates : List (UInt16 × Option IsarValue)) (index : UInt16) (t : DataType)
    (old new : Written) : Prop :=
  match lastUpdate updates index with
  | some value => updatedValue t value = some new
  | none => new = old

/-! ## Growth -/

/-- The number of bytes of a text. -/
def textLength : Written → Option Nat
  | .string text => some (Utf8.encode text).length
  | _ => none

/-- The number of bytes of the text that an update writes. -/
def updatedLength : Option IsarValue → Option Nat
  | some (.string text) => some (Utf8.encode text).length
  | _ => none

/-- The number of bytes of an object behind an update of a property with a text of `old` bytes: a
text that is not longer takes its place, another one is appended. -/
def grown (length : Nat) (old : Option Nat) (value : Option IsarValue) : Option Nat :=
  match updatedLength value with
  | some n =>
    if old.any fun m => decide (n ≤ m) then some length
    else if length - 3 < 2 ^ 24 ∧ n < 2 ^ 24 then some (length + (3 + n)) else none
  | none => some length

/-- The number of bytes of an object, and those of the texts of its properties. -/
structure Extent where
  length : Nat
  texts : UInt16 → Option Nat

/-- The extent that an update leaves, if the offsets and lengths that it writes fit three bytes. -/
def Extent.update (e : Extent) (u : UInt16 × Option IsarValue) : Option Extent := do
  let length ← grown e.length (e.texts u.1) u.2
  pure { length, texts := Function.update e.texts u.1 (updatedLength u.2) }

end IsarPlus.Native
