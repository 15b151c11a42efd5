import IsarPlus.Native.Reader

/-!
# The layout of written objects

What a tree of writes means for the finished bytes, without the calls that produced them: which
slot each value has, how many bytes it takes behind the static section, and where they stand. The
serializers are related to this layout in `Native.Proofs.Writing`, the readers in
`Native.Proofs.Reading`.
-/

namespace IsarPlus.Native
open ByteBuffer Scalar
open Sqlite (Written)

namespace WriterImpl

/-- The property or element that an index means. -/
def property : WriterImpl → UInt32 → Option NativeProperty
  | .object collection, index =>
    if index = 0 then none else (collection.properties[index.toNat - 1]?).map Prod.snd
  | .list elementType embeddedCollectionIndex length, index =>
    if index < length then
      some { dataType := elementType
             offset := index.toNat * elementType.staticSize
             embeddedCollectionIndex }
    else none

/-- An index that the writer does not shorten: properties have indexes of 16 bits. -/
def Addresses : WriterImpl → UInt32 → Prop
  | .object _, index => index.toNat < 2 ^ 16
  | .list _ _ _, _ => True

/-- The size of the static section. -/
def staticSize : WriterImpl → Nat
  | .object collection => collection.staticSize
  | .list elementType _ length => length.toNat * elementType.staticSize

end WriterImpl

/-- The slots of a collection's properties lie in the static section, apart from each other. -/
structure NativeCollection.Laid (c : NativeCollection) : Prop where
  inside : ∀ p ∈ c.properties, p.2.offset + p.2.dataType.staticSize ≤ c.staticSize
  apart : c.properties.Pairwise fun p q =>
    p.2.offset + p.2.dataType.staticSize ≤ q.2.offset ∨
      q.2.offset + q.2.dataType.staticSize ≤ p.2.offset

/-- The bytes of a null in the slot of a property. -/
def nullBytes : DataType → Bytes
  | .bool => [nullBool]
  | .byte => [0]
  | .int => i32Le nullInt
  | .float => f32Le nullFloat
  | .long => i64Le nullLong
  | .double => f64Le nullDouble
  | _ => leBytes 3 0

section
variable (all : List NativeCollection)

/-! ## Trees of writes -/

/-- No index twice, and all of them. -/
def Complete (length : UInt32) (writes : List (UInt32 × Written)) : Prop :=
  (writes.map Prod.fst).Nodup ∧ ∀ index < length, index ∈ writes.map Prod.fst

mutual

/-- A value of the type of a property: an object of its target collection in which no property is
written twice, a list in which every element is written once. -/
def Typed (p : NativeProperty) : Written → Prop
  | .null => True
  | .bool _ => p.dataType = .bool
  | .byte _ => p.dataType = .byte
  | .int _ => p.dataType = .int
  | .float _ => p.dataType = .float
  | .long _ => p.dataType = .long
  | .double _ => p.dataType = .double
  | .string _ => p.dataType = .string ∨ p.dataType = .json
  | .byteList _ => p.dataType = .byteList
  | .object writes =>
    p.dataType = .object ∧ (writes.map Prod.fst).Nodup ∧
      ∃ collection, p.embedded all = some collection ∧ TypedAll (.object collection) writes
  | .list length writes =>
    Complete length writes ∧ ∃ elementType, p.dataType.elementType = some elementType ∧
      TypedAll (.list elementType p.embeddedCollectionIndex length) writes

def TypedAll (w : WriterImpl) : List (UInt32 × Written) → Prop
  | [] => True
  | (index, value) :: writes =>
    (w.Addresses index ∧ ∃ p, w.property index = some p ∧ Typed p value) ∧ TypedAll w writes

end

mutual

/-- The bytes that a value takes behind the static section. -/
def dynamicSize (p : NativeProperty) : Written → Nat
  | .string value => 3 + (Utf8.encode value).length
  | .byteList value => 3 + value.length
  | .object writes =>
    match p.embedded all with
    | some collection => 3 + collection.staticSize + dynamicSizeAll (.object collection) writes
    | none => 0
  | .list length writes =>
    match p.dataType.elementType with
    | some elementType =>
      3 + length.toNat * elementType.staticSize +
        dynamicSizeAll (.list elementType p.embeddedCollectionIndex length) writes
    | none => 0
  | _ => 0

def dynamicSizeAll (w : WriterImpl) : List (UInt32 × Written) → Nat
  | [] => 0
  | (index, value) :: writes =>
    (match w.property index with
      | some p => dynamicSize p value
      | none => 0) + dynamicSizeAll w writes

end

/-- Three bytes hold the number. -/
def Fits24 (n : Nat) : Prop := n < 2 ^ 24

mutual

/-- The offset of a value that is written at the position `at_`, counted from its static section,
and its length fit three bytes, and so do those of the values in it. -/
def FitsAt (base at_ : Nat) (p : NativeProperty) : Written → Prop
  | .string value => Fits24 (at_ - base) ∧ Fits24 (Utf8.encode value).length
  | .byteList value => Fits24 (at_ - base) ∧ Fits24 value.length
  | .object writes =>
    match p.embedded all with
    | some collection =>
      Fits24 (at_ - base) ∧ Fits24 collection.staticSize ∧
        FitsAll (at_ + 3) (at_ + 3 + collection.staticSize) (.object collection) writes
    | none => True
  | .list length writes =>
    match p.dataType.elementType with
    | some elementType =>
      Fits24 (at_ - base) ∧ Fits24 (length.toNat * elementType.staticSize) ∧
        FitsAll (at_ + 3) (at_ + 3 + length.toNat * elementType.staticSize)
          (.list elementType p.embeddedCollectionIndex length) writes
    | none => True
  | _ => True

def FitsAll (base at_ : Nat) (w : WriterImpl) : List (UInt32 × Written) → Prop
  | [] => True
  | (index, value) :: writes =>
    match w.property index with
    | some p =>
      FitsAt base at_ p value ∧ FitsAll base (at_ + dynamicSize all p value) w writes
    | none => FitsAll base at_ w writes

end

/-! ## Written bytes -/

/-- Data behind the static section: its offset, its length and its bytes. -/
def HoldsDynamic (b : Bytes) (base at_ : Nat) (p : NativeProperty) (value : Bytes) : Prop :=
  At b (base + p.offset) (leBytes 3 (at_ - base)) ∧ At b at_ (leBytes 3 value.length) ∧
    At b (at_ + 3) value

/-- The header of a nested section and its slots; those that are not written stay zero. -/
def HoldsNested (b : Bytes) (base at_ : Nat) (p : NativeProperty) (w : WriterImpl)
    (indexes : List UInt32) : Prop :=
  At b (base + p.offset) (leBytes 3 (at_ - base)) ∧ At b at_ (leBytes 3 w.staticSize) ∧
    at_ + 3 + w.staticSize ≤ b.length ∧
    ∀ index q, index ∉ indexes → w.property index = some q →
      At b (at_ + 3 + q.offset) (List.replicate q.dataType.staticSize 0)

mutual

/-- The bytes of a value stand in the buffer `b`: those of its slot in the static section at `base`,
the others from `at_` on. -/
def Holds (b : Bytes) (base at_ : Nat) (p : NativeProperty) : Written → Prop
  | .null => At b (base + p.offset) (nullBytes p.dataType)
  | .bool value => At b (base + p.offset) [if value then trueBool else falseBool]
  | .byte value => At b (base + p.offset) [value]
  | .int value => At b (base + p.offset) (i32Le value)
  | .float value => At b (base + p.offset) (f32Le value)
  | .long value => At b (base + p.offset) (i64Le value)
  | .double value => At b (base + p.offset) (f64Le value)
  | .string value => HoldsDynamic b base at_ p (Utf8.encode value)
  | .byteList value => HoldsDynamic b base at_ p value
  | .object writes =>
    match p.embedded all with
    | some collection =>
      HoldsNested b base at_ p (.object collection) (writes.map Prod.fst) ∧
        HoldsAll b (at_ + 3) (at_ + 3 + collection.staticSize) (.object collection) writes
    | none => False
  | .list length writes =>
    match p.dataType.elementType with
    | some elementType =>
      HoldsNested b base at_ p (.list elementType p.embeddedCollectionIndex length)
          (writes.map Prod.fst) ∧
        HoldsAll b (at_ + 3) (at_ + 3 + length.toNat * elementType.staticSize)
          (.list elementType p.embeddedCollectionIndex length) writes
    | none => False

def HoldsAll (b : Bytes) (base at_ : Nat) (w : WriterImpl) : List (UInt32 × Written) → Prop
  | [] => True
  | (index, value) :: writes =>
    match w.property index with
    | some p =>
      Holds b base at_ p value ∧ HoldsAll b base (at_ + dynamicSize all p value) w writes
    | none => HoldsAll b base at_ w writes

end

end

end IsarPlus.Native
