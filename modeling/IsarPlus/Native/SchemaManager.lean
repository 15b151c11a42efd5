import IsarPlus.Core.Schema
import IsarPlus.Native.Collection
import Mathlib.Data.String.Basic
import Mathlib.Data.List.Sort

/-!
# Opening a native database

`isar_core/src/native/schema_manager.rs`. Every access to the storage can fail; a transaction that
is dropped leaves the storage as it was when the transaction began.
-/

namespace IsarPlus.Native
open ByteBuffer OrderedStore

/-- `ISAR_FILE_VERSION` (`schema_manager.rs:12`). -/
def isarFileVersion : UInt8 := 3

/-! ## The storage -/

/-- What transactions find and leave: the schemas in the database `_info` under their names, and
the databases of objects and of indexes. -/
structure Storage where
  info : SortedMap String IsarSchema
  named : ∀ e ∈ info.entries, e.2.name = e.1
  primary : Db → Option (SortedMap UInt64 Bytes)
  index : Db → Option (MultiMap Bytes Bytes)

namespace Storage

/-- The objects of a collection; a database that does not exist is created when it is opened. -/
def objects (s : Storage) (db : Db) : SortedMap UInt64 Bytes := (s.primary db).getD .empty

/-- The entries of an index. -/
def entries (s : Storage) (db : Db) : MultiMap Bytes Bytes := (s.index db).getD .empty

def schemas (s : Storage) : List IsarSchema := s.info.entries.map Prod.snd

def openPrimary (s : Storage) (db : Db) : Storage :=
  { s with primary := Function.update s.primary db (some (s.objects db)) }

def openIndex (s : Storage) (db : Db) : Storage :=
  { s with index := Function.update s.index db (some (s.entries db)) }

def dropPrimary (s : Storage) (db : Db) : Storage :=
  { s with primary := Function.update s.primary db none }

def dropIndex (s : Storage) (db : Db) : Storage :=
  { s with index := Function.update s.index db none }

def putSchema (s : Storage) (schema : IsarSchema) : Storage :=
  { s with
    info := s.info.insert schema.name schema
    named := by
      intro e mem
      rcases SortedMap.mem_insertList mem with rfl | mem
      · rfl
      · exact s.named e mem }

def deleteSchema (s : Storage) (name : String) : Storage :=
  { s with
    info := s.info.erase name
    named := fun e mem => s.named e (List.mem_filter.mp mem).1 }

end Storage

inductive Access where
  | begin | commit | openInfo | readInfo
  | openDb (db : Db)
  | dropDb (db : Db)
  | saveSchema (name : String)
  | deleteSchema (name : String)
  | lastKey (db : Db)
  deriving DecidableEq, Repr

/-- The accesses of a transaction that fail, with their errors. -/
abbrev TxnFaults := Storage → Access → Option IsarError

section
variable (refused : TxnFaults)

def attempt (s : Storage) (access : Access) : Result Unit :=
  match refused s access with
  | some e => fail e
  | none => pure ()

def openDb (s : Storage) (db : Db) : Result Storage := do
  attempt refused s (.openDb db)
  pure (s.openPrimary db)

/-- The name of the database of an index in `open_index_db` (`schema_manager.rs:137-140`). -/
def indexDb (colName indexName : String) : Db := "_" ++ colName ++ "_" ++ indexName

/-- `open_index_db` (`schema_manager.rs:137-140`). -/
def openIndexDb (s : Storage) (colName indexName : String) : Result (Storage × Db) := do
  let db := indexDb colName indexName
  attempt refused s (.openDb db)
  pure (s.openIndex db, db)

/-- `open_index_db` followed by `drop_db`. -/
def dropIndexDb (s : Storage) (colName indexName : String) : Result Storage := do
  let (s, db) ← openIndexDb refused s colName indexName
  attempt refused s (.dropDb db)
  pure (s.dropIndex db)

/-- `delete_collection` (`schema_manager.rs:142-154`). -/
def deleteCollection (s : Storage) (schema : IsarSchema) : Result Storage := do
  let s ← openDb refused s schema.name
  attempt refused s (.dropDb schema.name)
  let s := s.dropPrimary schema.name
  let s ← schema.indexes.foldlM (fun s index => dropIndexDb refused s schema.name index.name) s
  attempt refused s (.deleteSchema schema.name)
  pure (s.deleteSchema schema.name)

/-! ## Properties -/

/-- A dropped property keeps its place in the objects. -/
def dropProperty : List PropertySchema → String → List PropertySchema
  | [], _ => []
  | p :: properties, name =>
    if p.name = some name then { p with name := none } :: properties
    else p :: dropProperty properties name

/-- The properties that `migrate_collection` returns (`schema_manager.rs:171-188`). -/
def mergedProperties (schema existing : IsarSchema) : List PropertySchema :=
  let changes := schema.findChanges existing
  changes.dropProperties.foldl dropProperty existing.properties ++ changes.addProperties

/-- `migrate_collection` (`schema_manager.rs:156-189`). -/
def migrateCollection (s : Storage) (schema existing : IsarSchema) :
    Result (Storage × List PropertySchema) := do
  if existing.version ≠ isarFileVersion then fail .versionError
  else
    let s ← (schema.findChanges existing).dropIndexes.foldlM
      (fun s index => dropIndexDb refused s schema.name index) s
    pure (s, mergedProperties schema existing)

/-- The native property of a property at an offset; the collection of an object that is not among
the schemas panics. -/
def nativeProperty (schemaNames : List String) (offset : Nat) (p : PropertySchema) :
    Option NativeProperty :=
  match p.collection with
  | some collection =>
    (schemaNames.findIdx? fun n => n == collection).map fun index =>
      { dataType := p.dataType, offset, embeddedCollectionIndex := some (UInt16.ofNat index) }
  | none => some { dataType := p.dataType, offset, embeddedCollectionIndex := none }

/-- `get_properties` (`schema_manager.rs:191-213`), from an offset on. -/
def getProperties (schemaNames : List String) (offset : Nat) :
    List PropertySchema → Option (List (String × NativeProperty))
  | [] => some []
  | p :: properties => do
    let own ← match p.name with
      | some name => (nativeProperty schemaNames offset p).map fun property => [(name, property)]
      | none => some []
    let rest ← getProperties schemaNames (offset + p.dataType.staticSize) properties
    pure (own ++ rest)

/-- `sort_by_key` with the position in the schema (`schema_manager.rs:43-50`); the key of a property
that the schema does not have panics, and a list of at most one property is not looked at. -/
def sortProperties (schema : IsarSchema) (properties : List (String × NativeProperty)) :
    Option (List (String × NativeProperty)) :=
  if properties.length < 2 then some properties
  else do
    let keyed ← properties.mapM fun p =>
      (schema.properties.findIdx? fun q => q.name == some p.1).map fun position => (position, p)
    pure ((keyed.insertionSort fun a b => a.1 ≤ b.1).map Prod.snd)

/-! ## Collections -/

/-- The loop over the indexes of a schema (`schema_manager.rs:64-82`). -/
def openIndexes (colName : String) (properties : List (String × NativeProperty)) (s : Storage) :
    List IndexSchema → Result (Storage × List NativeIndex)
  | [] => pure (s, [])
  | index :: indexes => do
    let (s, db) ← openIndexDb refused s colName index.name
    let indexProperties ← orPanic (index.properties.mapM fun p => properties.lookup p)
    let (s, rest) ← openIndexes colName properties s indexes
    pure (s, { name := index.name, properties := indexProperties, unique := index.unique
               hash := index.hash, db } :: rest)

/-- The counter that `init_auto_increment` leaves (`native_collection.rs:81-89`). -/
def initAutoIncrement (objects : SortedMap UInt64 Bytes) : Int64 :=
  match objects.entries.getLast? with
  | some (key, _) => idOfKey key + 1
  | none => 1

/-- The properties of the schema after the migration, in the order of the objects. -/
def migrateProperties (existingSchemas : List IsarSchema) (s : Storage) (schema : IsarSchema) :
    Result (Storage × List PropertySchema) :=
  match existingSchemas.find? fun c => c.name == schema.name with
  | some existing => migrateCollection refused s schema existing
  | none => pure (s, schema.properties)

/-- The database of a collection that is not embedded. -/
def openCollectionDb (s : Storage) (schema : IsarSchema) : Result (Storage × Option Db) :=
  if schema.embedded then pure (s, none)
  else (openDb refused s schema.name).map fun s => (s, some schema.name)

/-- The counter of a collection. -/
def openCounter (s : Storage) (col : NativeCollection) : Result Int64 :=
  if col.isEmbedded then pure 1
  else do
    let db ← col.cursorDb
    attempt refused s (.lastKey db)
    pure (initAutoIncrement (s.objects db))

/-- What `save_schema` keeps of a schema: the name of the id is not written. -/
def savedSchema (schema : IsarSchema) (properties : List PropertySchema) : IsarSchema :=
  { schema with properties, version := isarFileVersion, idName := none }

/-- One turn of the loop of `perform_migration` (`schema_manager.rs:27-99`), with the collection and
its counter; an error or a panic drops the transaction. -/
def migrateSchema (existingSchemas : List IsarSchema) (schemaNames : List String)
    (collectionIndex : Nat) (s : Storage) (schema : IsarSchema) :
    Result (Storage × NativeCollection × Int64) := do
  attempt refused s .begin
  let (s, merged) ← migrateProperties refused existingSchemas s schema
  let unsorted ← orPanic (getProperties schemaNames 0 merged)
  let properties ← orPanic (sortProperties schema unsorted)
  attempt refused s (.saveSchema schema.name)
  let s := s.putSchema (savedSchema schema merged)
  let (s, db) ← openCollectionDb refused s schema
  let (s, indexes) ← openIndexes refused schema.name properties s schema.indexes
  let col := NativeCollection.new (UInt16.ofNat collectionIndex) schema.name schema.idName
    properties indexes db
  let counter ← openCounter refused s col
  attempt refused s .commit
  pure (s, col, counter)

/-- The first transaction (`schema_manager.rs:19-22`). -/
def readSchemas (s : Storage) : Result (List IsarSchema) := do
  attempt refused s .begin
  attempt refused s .openInfo
  attempt refused s .readInfo
  attempt refused s .commit
  pure s.schemas

/-- The last transaction (`schema_manager.rs:101-107`). -/
def removeCollections (existingSchemas schemas : List IsarSchema) (s : Storage) :
    Result Storage := do
  attempt refused s .begin
  let removed := existingSchemas.filter fun c => !schemas.any fun schema => schema.name == c.name
  let s ← removed.foldlM (deleteCollection refused) s
  attempt refused s .commit
  pure s

end

/-! ## The migration -/

/-- The accesses that fail, by the transaction that they belong to. -/
abbrev Faults := Nat → TxnFaults

/-- The loop over the schemas, from the transaction `n` on: every turn has a transaction of its own,
which it commits. -/
def migrateSchemas (refused : Faults) (existingSchemas : List IsarSchema)
    (schemaNames : List String) (n : Nat) (s : Storage) (cols : List (NativeCollection × Int64)) :
    List IsarSchema → Storage × Result (List (NativeCollection × Int64))
  | [] => (s, .ok cols)
  | schema :: schemas =>
    match migrateSchema (refused n) existingSchemas schemaNames cols.length s schema with
    | .ok (s, col) =>
      migrateSchemas refused existingSchemas schemaNames (n + 1) s (cols ++ [col]) schemas
    | .error e => (s, .error e)

/-- `perform_migration` (`schema_manager.rs:14-110`) with the storage that it leaves. -/
def performMigration (refused : Faults) (schemas : List IsarSchema) (s : Storage) :
    Storage × Result (List (NativeCollection × Int64)) :=
  match readSchemas (refused 0) s with
  | .error e => (s, .error e)
  | .ok existingSchemas =>
    match migrateSchemas refused existingSchemas (schemas.map IsarSchema.name) 1 s [] schemas with
    | (s, .error e) => (s, .error e)
    | (s, .ok cols) =>
      match removeCollections (refused (schemas.length + 1)) existingSchemas schemas s with
      | .error e => (s, .error e)
      | .ok s => (s, .ok cols)

end IsarPlus.Native
