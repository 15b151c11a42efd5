import IsarPlus.Core.JsonImport
import IsarPlus.Native.ShownValues

/-!
# JSON import into native collections

The writers of `native/native_writer.rs` as the import sees them, and what an imported document
means: the fields that it writes, and the object that is then shown.
-/

namespace IsarPlus.Native
open Scalar
open Sqlite (Written)

/-- `NativeInsert` as a writer, `NativeObjectWriter` and `NativeListWriter`; only an insert has a
name of the id (`native_writer.rs:155-157`, `:195-197`, `:245-247`). -/
structure NativeWriter where
  all : List NativeCollection
  idName : Option String
  impl : WriterImpl
  object : IsarSerializer

namespace NativeWriter

/-- A call that goes on with the same writer. -/
def wrote (writer : NativeWriter) (object : Option IsarSerializer) : Result NativeWriter :=
  (orPanic object).map fun object => { writer with object }

/-- `properties` (`native_writer.rs:159-164`, `:249-251`). -/
def properties (writer : NativeWriter) : List (String × DataType) :=
  match writer.impl with
  | .object c => c.properties.map fun p => (p.1, p.2.dataType)
  | .list _ _ _ => []

def beginObject (writer : NativeWriter) (index : UInt32) :
    Result (NativeWriter × Option NativeWriter) :=
  match writer.impl.beginObject writer.all writer.object index with
  | some (some (impl, object, nested)) =>
    .ok ({ writer with object }, some { writer with idName := none, impl, object := nested })
  | some none => .ok (writer, none)
  | none => .error .panic

def beginList (writer : NativeWriter) (index length : UInt32) :
    Result (NativeWriter × Option NativeWriter) :=
  match writer.impl.beginList writer.object index length with
  | some (object, some (impl, nested)) =>
    .ok ({ writer with object }, some { writer with idName := none, impl, object := nested })
  | some (object, none) => .ok ({ writer with object }, none)
  | none => .error .panic

def endNested (writer nested : NativeWriter) : NativeWriter :=
  { writer with object := writer.object.endNested nested.object }

instance : IsarWriter NativeWriter where
  idName := idName
  properties := properties
  writeNull w index := w.wrote (w.impl.writeNull w.object index)
  writeBool w index value := w.wrote (w.impl.writeBool w.object index value)
  writeByte w index value := w.wrote (w.impl.writeByte w.object index value)
  writeInt w index value := w.wrote (w.impl.writeInt w.object index value)
  writeFloat w index value := w.wrote (w.impl.writeFloat w.object index value)
  writeLong w index value := w.wrote (w.impl.writeLong w.object index value)
  writeDouble w index value := w.wrote (w.impl.writeDouble w.object index value)
  writeString w index value := w.wrote (w.impl.writeString w.object index value)
  beginObject := beginObject
  endObject := endNested
  beginList := beginList
  endList := endNested

end NativeWriter

/-- Inserts into a collection: the transaction with the insert that owns it
(`native_instance.rs:173-182`, `native_insert.rs:51-103`). -/
def NativeCollection.inserts (xxh3_64 : Bytes → UInt64) (all : List NativeCollection)
    (c : NativeCollection) : Inserts NativeTxn NativeWriter (NativeTxn × NativeInsert) where
  insert txn count := do
    let _ ← c.cursorDb
    let insert ← orPanic (c.newInsert count.toNat)
    pure (txn, insert)
  writer insert :=
    { all, idName := c.idName, impl := .object c, object := insert.2.object }
  written insert writer := (insert.1, { insert.2 with object := writer.object })
  save insert id := c.save xxh3_64 insert.1 insert.2 id
  finish insert := if 0 < insert.2.remaining then fail .insertIncomplete else .ok insert.1

/-! ## The fields of a document -/

/-- The property of a name with its index. -/
def NativeCollection.named (c : NativeCollection) (name : String) :
    Option (UInt32 × NativeProperty) :=
  (c.properties.zipIdx.find? fun p => p.1.1 == name).map fun p => (UInt32.ofNat (p.2 + 1), p.1.2)

/-- What a value is written as, if it is of the type that is read; null is written as null. -/
def plannedScalar {α : Type} (as : Source → Option α) (written : α → Written) :
    Source → Option Written
  | .null => some .null
  | source => (as source).map written

/-- The elements of a list with their indexes. -/
def numbered (values : List Written) : List (UInt32 × Written) :=
  values.zipIdx.map fun e => (UInt32.ofNat e.2, e.1)

def plannedList {α : Type} (as : Source → Option α) (written : α → Written) :
    Source → Option (Option Written)
  | .null => some none
  | .array _ elements => (elements.mapM (plannedScalar as written)).map fun values =>
    some (.list (UInt32.ofNat elements.length) (numbered values))
  | _ => none

/-- A null that leaves its slot as it is. -/
def plannedText (as : Source → Option (List Char)) : Source → Option (Option Written)
  | .null => some none
  | source => (as source).map fun value => some (.string value)

/-- What is written for a value that holds no object of its property: `none` if the import fails,
`some none` if nothing is written. -/
def plannedFlat (t : DataType) (source : Source) : Option (Option Written) :=
  match t with
  | .bool => (plannedScalar Source.asBool .bool source).map some
  | .byte => (plannedScalar Source.asU8 .byte source).map some
  | .int => (plannedScalar Source.asI32 .int source).map some
  | .float => (plannedScalar Source.asF32 .float source).map some
  | .long => (plannedScalar Source.asI64 .long source).map some
  | .double => (plannedScalar Source.asF64 .double source).map some
  | .string => plannedText Source.asStr source
  | .json => plannedText (fun source => some source.raw) source
  | .boolList => plannedList Source.asBool .bool source
  | .byteList => plannedList Source.asU8 .byte source
  | .intList => plannedList Source.asI32 .int source
  | .floatList => plannedList Source.asF32 .float source
  | .longList => plannedList Source.asI64 .long source
  | .doubleList => plannedList Source.asF64 .double source
  | .stringList => plannedList Source.asStr .string source
  | .object | .objectList => match source with
    | .null => some none
    | _ => none

/-- The write of a value, which may be none. -/
def written (index : UInt32) : Option Written → List (UInt32 × Written)
  | some value => [(index, value)]
  | none => []

section
variable (all : List NativeCollection)

mutual

/-- What is written for the value of a property. -/
def planned (p : NativeProperty) : Source → Option (Option Written)
  | .object raw entries =>
    if p.dataType = .object then
      match p.embedded all with
      | some c => (plannedMap c entries).map fun writes => some (.object writes)
      | none => none
    else plannedFlat p.dataType (.object raw entries)
  | .array raw elements =>
    if p.dataType = .objectList then
      (plannedObjects p 0 elements).map fun writes =>
        some (.list (UInt32.ofNat elements.length) writes)
    else plannedFlat p.dataType (.array raw elements)
  | source => plannedFlat p.dataType source

/-- The elements of a list of objects, from a position on. -/
def plannedObjects (p : NativeProperty) (i : Nat) : List Source → Option (List (UInt32 × Written))
  | [] => some []
  | .null :: elements => (plannedObjects p (i + 1) elements).map fun writes =>
    (UInt32.ofNat i, .null) :: writes
  | .object _ entries :: elements =>
    match p.embedded all with
    | some c => do
      let object ← plannedMap c entries
      let writes ← plannedObjects p (i + 1) elements
      pure ((UInt32.ofNat i, .object object) :: writes)
    | none => none
  | _ :: _ => none

/-- The fields of an object. -/
def plannedMap (c : NativeCollection) : List (String × Source) → Option (List (UInt32 × Written))
  | [] => some []
  | (key, source) :: entries =>
    match c.named key with
    | some (index, p) => do
      let value ← planned p source
      let writes ← plannedMap c entries
      pure (written index value ++ writes)
    | none => plannedMap c entries

end

/-- The id of an object: the number under the name of the id, or what the string there is mapped
to; an entry that comes later replaces an earlier one. -/
def NativeCollection.sourceId (strToId : List Char → Int64) (c : NativeCollection)
    (idName : Option String) (id : Option Int64) : List (String × Source) → Option (Option Int64)
  | [] => some id
  | (key, source) :: entries =>
    match c.named key with
    | some (_, p) =>
      if p.dataType = .string ∧ idName = some key then
        match source.asStr with
        | some value => c.sourceId strToId idName (some (strToId value)) entries
        | none => c.sourceId strToId idName id entries
      else c.sourceId strToId idName id entries
    | none =>
      if idName = some key then
        match source.asI64 with
        | some value => c.sourceId strToId idName (some value) entries
        | none => none
      else c.sourceId strToId idName id entries

/-! ## What is shown of a document -/

def shownScalar {α : Type} (as : Source → Option α) (shown : α → ReadValue) (null : ReadValue)
    (source : Source) : ReadValue :=
  match as source with
  | some value => shown value
  | none => null

def shownElements {α : Type} (as : Source → Option α) (shown : α → ReadValue)
    (null : ReadValue) : Source → ReadValue
  | .array _ elements => .list (elements.map (shownScalar as shown null))
  | _ => .null

/-- What an imported value shows that holds no object of its property. -/
def shownFlat (t : DataType) (source : Source) : ReadValue :=
  match t with
  | .bool => shownScalar Source.asBool .bool .null source
  | .byte => shownScalar Source.asU8 .byte (.byte 0) source
  | .int => shownScalar Source.asI32 shownInt .null source
  | .float => shownScalar Source.asF32 shownFloat .null source
  | .long => shownScalar Source.asI64 shownLong .null source
  | .double => shownScalar Source.asF64 shownDouble .null source
  | .string => shownScalar Source.asStr .string .null source
  | .json => match source with
    | .null => .null
    | source => .string source.raw
  | .boolList => shownElements Source.asBool .bool .null source
  | .byteList => shownElements Source.asU8 .byte (.byte 0) source
  | .intList => shownElements Source.asI32 shownInt .null source
  | .floatList => shownElements Source.asF32 shownFloat .null source
  | .longList => shownElements Source.asI64 shownLong .null source
  | .doubleList => shownElements Source.asF64 shownDouble .null source
  | .stringList => shownElements Source.asStr .string .null source
  | .object | .objectList => .null

mutual

/-- What a property shows of an imported value. -/
def imported (p : NativeProperty) : Source → ReadValue
  | .object raw entries =>
    if p.dataType = .object then
      match p.embedded all with
      | some c => .object c.idName (c.arranged (importedEntries c entries))
      | none => .null
    else shownFlat p.dataType (.object raw entries)
  | .array raw elements =>
    if p.dataType = .objectList then .list (importedObjects p elements)
    else shownFlat p.dataType (.array raw elements)
  | source => shownFlat p.dataType source

def importedObjects (p : NativeProperty) : List Source → List ReadValue
  | [] => []
  | .object _ entries :: elements =>
    (match p.embedded all with
      | some c => .object c.idName (c.arranged (importedEntries c entries))
      | none => .null) :: importedObjects p elements
  | _ :: elements => .null :: importedObjects p elements

/-- The values of the properties that are there. -/
def importedEntries (c : NativeCollection) : List (String × Source) → List (UInt32 × ReadValue)
  | [] => []
  | (key, source) :: entries =>
    match c.named key with
    | some (index, p) => (index, imported p source) :: importedEntries c entries
    | none => importedEntries c entries

end

/-- The reader of an imported object: a property without an entry is blank. -/
def NativeCollection.importedReader (c : NativeCollection) (id : Int64)
    (entries : List (String × Source)) : IsarReader where
  idName := c.idName
  id := id
  properties := c.arranged (importedEntries all c entries)

end

mutual

/-- No object has a key twice, and no list is too long for its length. -/
def Plain : Source → Prop
  | .array _ elements => elements.length < 2 ^ 32 ∧ PlainElements elements
  | .object _ entries => (entries.map Prod.fst).Nodup ∧ PlainEntries entries
  | _ => True

def PlainElements : List Source → Prop
  | [] => True
  | source :: elements => Plain source ∧ PlainElements elements

def PlainEntries : List (String × Source) → Prop
  | [] => True
  | (_, source) :: entries => Plain source ∧ PlainEntries entries

end

/-! ## Imported documents -/

namespace NativeCollection

/-- The tree of an object is written and saved under an id as these bytes. -/
def WrittenAs (all : List NativeCollection) (strToId : List Char → Int64) (c : NativeCollection)
    (source : Source) (saved : Int64 × Bytes) : Prop :=
  ∃ raw entries writes insert, source = .object raw entries ∧
    plannedMap all c entries = some writes ∧
    c.sourceId strToId c.idName none entries = some (some saved.1) ∧
    c.writeObject all 1 writes = some insert ∧ saved.2 = insert.object.finish

/-- The bytes of an imported object show its tree. -/
structure ImportedAs (all : List NativeCollection) (strToId : List Char → Int64)
    (c : NativeCollection) (source : Source) (saved : Int64 × Bytes) : Prop where
  written : c.WrittenAs all strToId source saved
  shows : ∀ raw entries, source = .object raw entries →
    c.Shows all saved.1 saved.2 (c.importedReader all saved.1 entries)

/-- Objects with others saved on top of them, one after the other. -/
def laidOver (saves : List (Int64 × Bytes)) (table : Int64 → Option Bytes) :
    Int64 → Option Bytes :=
  saves.foldl (fun table saved => Function.update table saved.1 (some saved.2)) table

/-- Objects are saved one after the other. What is stored afterwards lies within what was there with
the saved objects on top; unless an index is unique nothing of it is missing, and in any case the
last object is there. -/
structure SavesAll (xxh3_64 : Bytes → UInt64) (c : NativeCollection)
    (saves : List (Int64 × Bytes)) (txn txn' : NativeTxn) : Prop where
  run : c.run xxh3_64 txn (saves.map fun saved => .save saved.1 saved.2) = .ok txn'
  within : ∀ id object, c.objects txn' id = some object →
    laidOver saves (c.objects txn) id = some object
  exact_ : (∀ index ∈ c.indexes, index.unique = false) →
    c.objects txn' = laidOver saves (c.objects txn)
  last : ∀ earlier id object, saves = earlier ++ [(id, object)] → c.objects txn' id = some object

end NativeCollection

end IsarPlus.Native
