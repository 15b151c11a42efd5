import IsarPlus.Native.CursorIterator
import IsarPlus.Native.Serializer
import IsarPlus.Lib.Utf8

/-!
# Native collections

`isar_core/src/native/native_collection.rs`: putting, deleting and updating objects together with
the entries of all indexes.
-/

namespace IsarPlus.Native
open ByteBuffer Scalar OrderedStore

/-- `NativeCollection` (`native_collection.rs:34-44`). Of the registered watchers only the answers
of `has_query_watchers` and `has_detailed_watchers` steer the operations. -/
structure NativeCollection where
  collectionIndex : UInt16
  name : String
  idName : Option String
  properties : List (String × NativeProperty)
  indexes : List NativeIndex
  staticSize : Nat
  hasQueryWatchers : Bool
  hasDetailedWatchers : Bool
  db : Option Db
  deriving DecidableEq, Repr

namespace NativeCollection

/-- `max_by_key` takes the last of the properties with the greatest offset. -/
def maxByOffset : List (String × NativeProperty) → Option NativeProperty
  | [] => none
  | (_, p) :: ps =>
    match maxByOffset ps with
    | some q => some (if q.offset < p.offset then p else q)
    | none => some p

/-- `NativeCollection::new` (`native_collection.rs:47-71`). -/
def new (collectionIndex : UInt16) (name : String) (idName : Option String)
    (properties : List (String × NativeProperty)) (indexes : List NativeIndex) (db : Option Db) :
    NativeCollection where
  collectionIndex := collectionIndex
  name := name
  idName := idName
  properties := properties
  indexes := indexes
  staticSize := match maxByOffset properties with
    | some p => p.offset + p.dataType.staticSize
    | none => 0
  hasQueryWatchers := false
  hasDetailedWatchers := false
  db := db

/-- `is_embedded` (`native_collection.rs:78-80`). -/
def isEmbedded (c : NativeCollection) : Bool := c.idName.isNone

/-- `get_property` (`native_collection.rs:101-110`): property indexes count from one. -/
def getProperty (c : NativeCollection) (propertyIndex : UInt16) : Option NativeProperty :=
  if propertyIndex ≠ 0 then (c.properties[propertyIndex.toNat - 1]?).map Prod.snd else none

/-- The database behind `get_cursor` (`native_collection.rs:73-76`). -/
def cursorDb (c : NativeCollection) : Result Db :=
  match c.db with
  | some db => .ok db
  | none => fail .unsupportedOperation

/-- `update_auto_increment` (`native_collection.rs:95-98`). -/
def updateAutoIncrement (c : NativeCollection) (txn : NativeTxn) (id : Int64) : NativeTxn :=
  { txn with autoIncrement :=
      Function.update txn.autoIncrement c.name (max (txn.autoIncrement c.name) (id + 1)) }

/-- The detailed change that `put` and `delete` show to detailed watchers, if there are any. -/
def registerDetailed (c : NativeCollection) (txn : NativeTxn) (id : Int64)
    (old new : Option Bytes) : NativeTxn :=
  if c.hasDetailedWatchers then txn.register (.detailed c.name id old new) else txn

variable (xxh3_64 : Bytes → UInt64)

/-- The loop over all indexes that removes an object's entries. -/
def deleteEntries (c : NativeCollection) (txn : NativeTxn) (id : Int64)
    (object : IsarDeserializer) : Result NativeTxn :=
  c.indexes.foldlM (fun txn index => index.deleteForObject xxh3_64 txn id object) txn

/-- `delete` (`native_collection.rs:206-250`). -/
def delete (c : NativeCollection) (txn : NativeTxn) (id : Int64) : Result (NativeTxn × Bool) := do
  let db ← c.cursorDb
  match txn.get db id with
  | some bytes => do
    let object ← orPanic (IsarDeserializer.fromBytes bytes)
    let txn := txn.register (.object c.name id bytes)
    let txn := c.registerDetailed txn id (some bytes) none
    let txn ← c.deleteEntries xxh3_64 txn id object
    pure (txn.deleteObject db id, true)
  | none => pure (txn, false)

/-- The loop over all indexes that stores an object's entries; what a unique index already binds
to its key is deleted from the whole collection first. -/
def createEntries (c : NativeCollection) (txn : NativeTxn) (id : Int64)
    (object : IsarDeserializer) : Result NativeTxn :=
  c.indexes.foldlM
    (fun txn index => index.createForObject xxh3_64 txn id object
      fun txn conflict => (c.delete xxh3_64 txn conflict).map Prod.fst)
    txn

/-- The object that `put` looks up before it writes: only for indexes and watchers. -/
def oldObject (c : NativeCollection) (txn : NativeTxn) (db : Db) (id : Int64) : Option Bytes :=
  if !c.indexes.isEmpty || c.hasQueryWatchers || c.hasDetailedWatchers then txn.get db id
  else none

/-- The removal of the old object's entries in `put` (`native_collection.rs:152-162`). -/
def deleteOldEntries (c : NativeCollection) (txn : NativeTxn) (id : Int64) :
    Option Bytes → Result NativeTxn
  | some oldBytes => do
    let oldObject ← orPanic (IsarDeserializer.fromBytes oldBytes)
    c.deleteEntries xxh3_64 txn id oldObject
  | none => pure txn

/-- `put` (`native_collection.rs:133-204`). -/
def put (c : NativeCollection) (txn : NativeTxn) (id : Int64) (bytes : Bytes) :
    Result NativeTxn := do
  let db ← c.cursorDb
  let old := c.oldObject txn db id
  let txn ← c.deleteOldEntries xxh3_64 txn id old
  let newObject ← orPanic (IsarDeserializer.fromBytes bytes)
  let txn := txn.register (.object c.name id bytes)
  let txn := c.registerDetailed txn id old (some bytes)
  let txn ← c.createEntries xxh3_64 txn id newObject
  let txn := c.updateAutoIncrement txn id
  pure (txn.putObject db id bytes)

/-- `write_value` (`native_collection.rs:281-317`): Rust's `as` casts wrap integers and round
doubles. -/
def writeValue (c : NativeCollection) (object : IsarSerializer) (propertyIndex : UInt16)
    (value : Option IsarValue) : Result IsarSerializer :=
  match c.getProperty propertyIndex with
  | some p =>
    match value, p.dataType with
    | none, t => orPanic (object.writeNull p.offset t)
    | some (.bool v), .bool => orPanic (object.writeBool p.offset v)
    | some (.integer v), .byte => orPanic (object.writeByte p.offset v.toUInt64.toUInt8)
    | some (.integer v), .int => orPanic (object.writeInt p.offset v.toInt32)
    | some (.integer v), .long => orPanic (object.writeLong p.offset v)
    | some (.real v), .float => orPanic (object.writeFloat p.offset v.toF32)
    | some (.real v), .double => orPanic (object.writeDouble p.offset v)
    | some (.string v), .string => orPanic (object.updateDynamic p.offset (Utf8.encode v))
    | some (.string v), .json => orPanic (object.updateDynamic p.offset (Utf8.encode v))
    | _, _ => fail .illegalArgument
  | none => fail .illegalArgument

/-- The copy of a stored object on which `update` works: its bytes are reopened with the
collection's static size, whatever static size they were written with. -/
def updateObject (c : NativeCollection) (oldObject : Bytes)
    (updates : List (UInt16 × Option IsarValue)) : Result Bytes := do
  let newObject ← orPanic (IsarSerializer.new oldObject 0 c.staticSize)
  let newObject ← updates.foldlM (fun object u => c.writeValue object u.1 u.2) newObject
  pure newObject.finish

/-- `update` (`native_collection.rs:252-279`). -/
def update (c : NativeCollection) (txn : NativeTxn) (id : Int64)
    (updates : List (UInt16 × Option IsarValue)) : Result (NativeTxn × Bool) := do
  let db ← c.cursorDb
  match txn.get db id with
  | some oldObject => do
    let newObject ← c.updateObject oldObject updates
    let txn ← c.put xxh3_64 txn id newObject
    pure (txn, true)
  | none => pure (txn, false)

/-- The walk of `clear` through the objects (`native_collection.rs:332-335`), with the cursor that the
transaction has on the primary database. -/
def iterPrimary (txn : NativeTxn) (db : Db) : Result (List (Int64 × Bytes)) := do
  let primary := primaryDb (txn.primary db)
  let it ← TxnCursor.iter primary.listCursor xxh3_64 (.before primary.entries)
  let entries ← orPanic (Iteration.collect (CursorIterator.nextEntry primary.listCursor)
    (primary.entries.length + 1) it)
  entries.mapM fun (key, value) => do
    let id ← orPanic (toId key)
    let _ ← orPanic (IsarDeserializer.fromBytes value)
    pure (id, value)

/-- `clear` (`native_collection.rs:319-354`). -/
def clear (c : NativeCollection) (txn : NativeTxn) : Result NativeTxn := do
  let db ← c.cursorDb
  let txn := txn.register (.all c.name)
  let txn ← if c.hasDetailedWatchers then do
      let objects ← iterPrimary xxh3_64 txn db
      pure (objects.foldl (fun txn o => txn.register (.detailed c.name o.1 (some o.2) none)) txn)
    else pure txn
  let txn := txn.clearPrimary db
  pure (c.indexes.foldl (fun txn index => index.clear txn) txn)

end NativeCollection

end IsarPlus.Native
