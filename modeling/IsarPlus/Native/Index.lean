import IsarPlus.Core.Error
import IsarPlus.Lib.SecondaryIndex
import IsarPlus.Native.IndexKey
import Mathlib.Data.List.Lex

/-!
# Indexes of a native collection

`isar_core/src/native/native_index.rs`. The key-value store is assumed to be a correct sorted map
for the primary databases (integer keys) and a correct sorted multimap for the index databases
(bytes in lexicographic order, duplicates sorted under a key).
-/

namespace IsarPlus.Native
open ByteBuffer Scalar OrderedStore

/-- A database handle: the name under which the database was opened. -/
abbrev Db := String

/-- `NativeProperty` (`native_collection.rs:17-22`). -/
structure NativeProperty where
  dataType : DataType
  offset : Nat
  embeddedCollectionIndex : Option UInt16
  deriving DecidableEq, Repr

/-- What the operations of a transaction tell its change set, in order (`core/watcher.rs`): a
`register_change`, a change that the detailed watchers are shown, and a `register_all`. -/
inductive Change where
  | object (collection : String) (id : Int64) (bytes : Bytes)
  | detailed (collection : String) (id : Int64) (old new : Option Bytes)
  | all (collection : String)
  deriving DecidableEq

/-- A write transaction (`native_txn.rs:12-18`) with the databases as it sees them, and the
auto-increment counters of the collections, which it does not roll back. -/
structure NativeTxn where
  primary : Db → SortedMap UInt64 Bytes
  index : Db → MultiMap Bytes Bytes
  autoIncrement : String → Int64
  changeSet : List Change

namespace NativeTxn

def register (txn : NativeTxn) (change : Change) : NativeTxn :=
  { txn with changeSet := txn.changeSet ++ [change] }

/-- `cursor.move_to(&id.to_id_bytes())` on a primary database. -/
def get (txn : NativeTxn) (db : Db) (id : Int64) : Option Bytes := (txn.primary db).find (idKey id)

def putObject (txn : NativeTxn) (db : Db) (id : Int64) (bytes : Bytes) : NativeTxn :=
  { txn with primary := Function.update txn.primary db ((txn.primary db).insert (idKey id) bytes) }

def deleteObject (txn : NativeTxn) (db : Db) (id : Int64) : NativeTxn :=
  { txn with primary := Function.update txn.primary db ((txn.primary db).erase (idKey id)) }

def putEntry (txn : NativeTxn) (db : Db) (key value : Bytes) : NativeTxn :=
  { txn with index := Function.update txn.index db ((txn.index db).put key value) }

def deleteEntry (txn : NativeTxn) (db : Db) (key value : Bytes) : NativeTxn :=
  { txn with index := Function.update txn.index db ((txn.index db).del key value) }

def clearPrimary (txn : NativeTxn) (db : Db) : NativeTxn :=
  { txn with primary := Function.update txn.primary db .empty }

def clearIndex (txn : NativeTxn) (db : Db) : NativeTxn :=
  { txn with index := Function.update txn.index db .empty }

@[simp] theorem get_register (txn : NativeTxn) (change : Change) (db : Db) (id : Int64) :
    (txn.register change).get db id = txn.get db id := rfl

@[simp] theorem index_register (txn : NativeTxn) (change : Change) :
    (txn.register change).index = txn.index := rfl

@[simp] theorem get_putEntry (txn : NativeTxn) (db db' : Db) (key value : Bytes) (id : Int64) :
    (txn.putEntry db' key value).get db id = txn.get db id := rfl

@[simp] theorem get_deleteEntry (txn : NativeTxn) (db db' : Db) (key value : Bytes) (id : Int64) :
    (txn.deleteEntry db' key value).get db id = txn.get db id := rfl

theorem index_putEntry (txn : NativeTxn) (db : Db) (key value : Bytes) :
    (txn.putEntry db key value).index =
      Function.update txn.index db ((txn.index db).put key value) := rfl

theorem index_deleteEntry (txn : NativeTxn) (db : Db) (key value : Bytes) :
    (txn.deleteEntry db key value).index =
      Function.update txn.index db ((txn.index db).del key value) := rfl

theorem index_clearIndex (txn : NativeTxn) (db : Db) :
    (txn.clearIndex db).index = Function.update txn.index db .empty := rfl

@[simp] theorem index_putObject (txn : NativeTxn) (db : Db) (id : Int64) (bytes : Bytes) :
    (txn.putObject db id bytes).index = txn.index := rfl

@[simp] theorem index_deleteObject (txn : NativeTxn) (db : Db) (id : Int64) :
    (txn.deleteObject db id).index = txn.index := rfl

@[simp] theorem index_clearPrimary (txn : NativeTxn) (db : Db) :
    (txn.clearPrimary db).index = txn.index := rfl

@[simp] theorem get_clearPrimary (txn : NativeTxn) (db : Db) (id : Int64) :
    (txn.clearPrimary db).get db id = none := by
  simp [get, clearPrimary]

theorem get_putObject (txn : NativeTxn) (db : Db) (id id' : Int64) (bytes : Bytes) :
    (txn.putObject db id bytes).get db id' = if id' = id then some bytes else txn.get db id' := by
  simp only [get, putObject, Function.update_self, SortedMap.find_insert]
  congr 1
  exact propext ⟨idKey_injective, congrArg idKey⟩

theorem get_deleteObject (txn : NativeTxn) (db : Db) (id id' : Int64) :
    (txn.deleteObject db id).get db id' = if id' = id then none else txn.get db id' := by
  simp only [get, deleteObject, Function.update_self, SortedMap.find_erase]
  congr 1
  exact propext ⟨idKey_injective, congrArg idKey⟩

end NativeTxn

/-! ## Keys -/

/-- `NativeIndex` (`native_index.rs:9-16`). -/
structure NativeIndex where
  name : String
  properties : List NativeProperty
  unique : Bool
  hash : Bool
  db : Db
  deriving DecidableEq, Repr

namespace NativeIndex

/-- The match of `create_key` on one property (`native_index.rs:38-49`). -/
def addProperty (object : IsarDeserializer) (key : IndexKey) (p : NativeProperty) :
    Option IndexKey :=
  match p.dataType with
  | .bool => (object.readBool p.offset).map key.addBool
  | .byte => (object.readByte p.offset).map key.addByte
  | .int => (object.readInt p.offset).map key.addInt
  | .float => (object.readFloat p.offset).map key.addFloat
  | .long => (object.readLong p.offset).map key.addLong
  | .double => (object.readDouble p.offset).map key.addDouble
  | .string => (object.readString p.offset).map key.addString
  | _ => none

/-- `create_key` (`native_index.rs:36-60`): the key bytes and whether an indexed value is null. -/
def createKey (xxh3_64 : Bytes → UInt64) (index : NativeIndex) (object : IsarDeserializer) :
    Option (Bytes × Bool) := do
  let key ← index.properties.foldlM (addProperty object) IndexKey.min
  if index.hash then pure (beBytes 8 (key.hash xxh3_64).toNat, key.containsNull)
  else pure (key.finish xxh3_64)

/-- The lookup in `create_for_object` (`native_index.rs:76-80`): what a unique index binds to a key
free of nulls is deleted. -/
def deleteConflict (index : NativeIndex) (txn : NativeTxn) (key : Bytes) (containsNull : Bool)
    (delete : NativeTxn → Int64 → Result NativeTxn) : Result NativeTxn :=
  if index.unique && !containsNull then
    match (txn.index index.db).firstDup key with
    | some idBytes => do
      let conflict ← orPanic (toId idBytes)
      delete txn conflict
    | none => pure txn
  else pure txn

variable (xxh3_64 : Bytes → UInt64)

/-- `create_for_object` (`native_index.rs:62-84`). -/
def createForObject (index : NativeIndex) (txn : NativeTxn) (id : Int64)
    (object : IsarDeserializer) (delete : NativeTxn → Int64 → Result NativeTxn) :
    Result NativeTxn := do
  let (key, containsNull) ← orPanic (index.createKey xxh3_64 object)
  let txn ← index.deleteConflict txn key containsNull delete
  pure (txn.putEntry index.db key (toIdBytes id))

/-- `delete_for_object` (`native_index.rs:86-99`). -/
def deleteForObject (index : NativeIndex) (txn : NativeTxn) (id : Int64)
    (object : IsarDeserializer) : Result NativeTxn := do
  let (key, _) ← orPanic (index.createKey xxh3_64 object)
  if (txn.index index.db).Has key (toIdBytes id) then
    pure (txn.deleteEntry index.db key (toIdBytes id))
  else pure txn

/-- `clear` (`native_index.rs:105-107`). -/
def clear (index : NativeIndex) (txn : NativeTxn) : NativeTxn := txn.clearIndex index.db

end NativeIndex

end IsarPlus.Native
