import IsarPlus.Lib.Run
import IsarPlus.Native.Instance
import IsarPlus.Native.SchemaManager

/-!
# Native databases

All collections of a database share one storage, whose databases they find by name. A database
lives through openings, each with a migration, and write transactions on its collections.
-/

namespace IsarPlus.Native
open ByteBuffer OrderedStore

/-- The names under which the databases of these schemas are opened (`schema_manager.rs:57-66` and
`132-140`). -/
def databaseNames (schemas : List IsarSchema) : List Db :=
  "_info" :: (schemas.map IsarSchema.name ++
    schemas.flatMap fun c => c.indexes.map fun index => indexDb c.name index.name)

/-- No name of a collection is that of another one with an underscore and the beginning of one of
its indexes behind it, such that the rest of the index is the name of an index as well. -/
def Unambiguous (schemas : List IsarSchema) : Prop :=
  ∀ c ∈ schemas, ∀ c' ∈ schemas, ∀ index ∈ c.indexes, ∀ index' ∈ c'.indexes, ∀ rest : String,
    c'.name = c.name ++ "_" ++ rest → index.name ≠ rest ++ "_" ++ index'.name

/-- A database on disk, and its collections as the last opening has left them. -/
structure Database where
  storage : Storage
  collections : List NativeCollection

/-- The transaction that begins on a storage. -/
def Storage.beginTxn (s : Storage) (counters : String → Int64) : NativeTxn where
  primary := s.objects
  index := s.entries
  autoIncrement := counters
  changeSet := []

/-- The storage that a transaction commits. -/
def Storage.commitTxn (s : Storage) (txn : NativeTxn) : Storage :=
  { s with
    primary := fun db => (s.primary db).map fun _ => txn.primary db
    index := fun db => (s.index db).map fun _ => txn.index db }

inductive Event where
  | operate (collection : String) (operations : List Operation)
  | migrate (refused : Faults) (schemas : List IsarSchema)

/-- One write transaction on a collection, or one opening. What fails is rolled back; after a failed
migration no collection is open. -/
inductive Database.Step (xxh3_64 : Bytes → UInt64) : Database → Event → Database → Prop
  | commit {d : Database} {c : NativeCollection} {counters : String → Int64}
      {operations : List Operation} {txn : NativeTxn} (opened : c ∈ d.collections)
      (done : c.run xxh3_64 (d.storage.beginTxn counters) operations = .ok txn) :
      Step xxh3_64 d (.operate c.name operations) { d with storage := d.storage.commitTxn txn }
  | abort {d : Database} {collection : String} {operations : List Operation} :
      Step xxh3_64 d (.operate collection operations) d
  | migrate {d : Database} {refused : Faults} {schemas : List IsarSchema} {storage : Storage}
      {cols : List (NativeCollection × Int64)} (verified : IsarSchema.verifySchemas schemas = .ok ())
      (names : (schemas.map IsarSchema.name).Nodup)
      (done : performMigration refused schemas d.storage = (storage, .ok cols)) :
      Step xxh3_64 d (.migrate refused schemas) ⟨storage, cols.map Prod.fst⟩
  | fail {d : Database} {refused : Faults} {schemas : List IsarSchema} {storage : Storage}
      {e : Fault} (verified : IsarSchema.verifySchemas schemas = .ok ())
      (names : (schemas.map IsarSchema.name).Nodup)
      (failed : performMigration refused schemas d.storage = (storage, .error e)) :
      Step xxh3_64 d (.migrate refused schemas) ⟨storage, []⟩

/-- A new database. -/
def Database.new : Database where
  storage :=
    { info := .empty
      named := by
        intro e absent
        cases absent
      primary := fun _ => none
      index := fun _ => none }
  collections := []

/-- What happens is an operation on this collection, or a migration that asks for every other stored
collection again as it is. -/
def Database.Concerns (name : String) (d : Database) : Event → Prop
  | .operate collection _ => collection = name
  | .migrate _ schemas => ∀ other existing, other ≠ name →
    d.storage.info.find other = some existing →
      ∃ c ∈ schemas, c.name = other ∧ c.findChanges existing = ⟨[], [], [], []⟩

/-- A stored collection is still stored, with the same indexes, the same objects and the same index
entries. -/
def Untouched (name : String) (s s' : Storage) : Prop :=
  ∀ existing, s.info.find name = some existing →
    (∃ existing', s'.info.find name = some existing' ∧ existing'.indexes.Perm existing.indexes) ∧
    s'.objects name = s.objects name ∧
    ∀ index ∈ existing.indexes,
      s'.entries (indexDb name index.name) = s.entries (indexDb name index.name)

end IsarPlus.Native
