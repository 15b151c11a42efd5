import IsarPlus.Native.Database
import IsarPlus.Native.Insert
import IsarPlus.Native.ReadBack

/-!
# Objects of earlier versions

What a collection that went through migrations reads of an object that one of its earlier versions
has written. The versions of embedded collections change on their own.
-/

namespace IsarPlus.Native
open ByteBuffer Scalar
open Sqlite (Written)

/-! ## Histories -/

/-- A property that is stored with a collection. -/
def Storage.Stores (s : Storage) (collection : String) (p : PropertySchema) : Prop :=
  ∃ e, s.info.find collection = some e ∧ p ∈ e.properties

/-- A property that is stored in every state of a history, always with the same type and target. -/
def Kept (d : Database) (passed : List (Event × Database)) (collection property : String) : Prop :=
  ∃ p, p.name = some property ∧ d.storage.Stores collection p ∧
    ∀ v ∈ passed, v.2.storage.Stores collection p

/-- The schemas that the last migration asked for. -/
def requestedSchemas : List IsarSchema → List Event → List IsarSchema
  | schemas, [] => schemas
  | schemas, .operate _ _ :: events => requestedSchemas schemas events
  | _, .migrate _ schemas :: events => requestedSchemas schemas events

/-- The index under which the readers and the writers of a collection know a property. -/
def NativeCollection.Knows (c : NativeCollection) (index : UInt32) (name : String) : Prop :=
  index ≠ 0 ∧ (c.properties[index.toNat - 1]?).map Prod.fst = some name

/-! ## Readers of another version -/

/-- Every read of an index gives the null of its type. -/
structure Reader.Absent (all : List NativeCollection) (r : Reader) (index : UInt32) : Prop where
  isNull : r.isNull index = some true
  bool : r.readBool index = some none
  byte : r.readByte index = some 0
  int : r.readInt index = some nullInt
  float : r.readFloat index = some nullFloat
  long : r.readLong index = some nullLong
  double : r.readDouble index = some nullDouble
  string : r.readString index = some none
  blob : r.readBlob index = some none
  object : r.readObject all index = some none
  list : r.readList index = some none

section
variable (kept : String → String → Prop) (before after : List NativeCollection)

/-- What was not kept since an object was written is absent from it. -/
def AddedAbsent (d : IsarDeserializer) (new : NativeCollection) : Prop :=
  ∀ id index name, new.Knows index name → ¬ kept new.name name →
    (Reader.object id d new).Absent after index

mutual

/-- An index reads as the value that an earlier version has written to a property. The objects in
the value are read by the later versions of their own collections. -/
def StillReads (r : Reader) (index : UInt32) (p : NativeProperty) : Written → Prop
  | .object writes =>
    r.isNull index = some false ∧ ∃ old new id d, p.embedded before = some old ∧
      r.readObject after index = some (some (.object id d new)) ∧ new.name = old.name ∧
      FieldsStillRead old new (.object id d new) writes ∧ AddedAbsent kept after d new
  | .list length writes =>
    r.isNull index = some false ∧ ∃ elementType nested, p.dataType.elementType = some elementType ∧
      r.readList index = some (some (nested, length.toNat)) ∧
      ElementsStillRead (.list elementType p.embeddedCollectionIndex length) nested writes
  | value => r.ReadsBack after index p.dataType value

/-- The properties that were kept read under their new indexes as they were written. -/
def FieldsStillRead (old new : NativeCollection) (r : Reader) : List (UInt32 × Written) → Prop
  | [] => True
  | (index, value) :: writes =>
    (∀ name, old.Knows index name → kept old.name name →
      ∃ index' p, new.Knows index' name ∧ (WriterImpl.object old).property index = some p ∧
        StillReads r index' p value) ∧
    FieldsStillRead old new r writes

def ElementsStillRead (w : WriterImpl) (r : Reader) : List (UInt32 × Written) → Prop
  | [] => True
  | (index, value) :: writes =>
    (∃ p, w.property index = some p ∧ StillReads r index p value) ∧ ElementsStillRead w r writes

end

end

end IsarPlus.Native
