import IsarPlus.Sqlite.Insert
import IsarPlus.Sqlite.Proofs.MigratedColumns

/-!
# The check of a SQLite database

`verify` of an instance (`isar_core/src/sqlite/sqlite_verify.rs`) compares the catalog that SQLite
reports with the collections that were opened. An opened collection keeps its indexes for this only
(`sqlite_collection.rs:36-37`).
-/

namespace IsarPlus

/-- `Vec::sort` of names. -/
def sortNames (names : List String) : List String := names.insertionSort (· ≤ ·)

end IsarPlus

namespace IsarPlus.Sqlite
open IsarSchema

/-- A collection of `SQLiteInstanceInfo` with what is kept for the check. -/
structure OpenedCollection where
  collection : SQLiteCollection
  indexes : List IndexSchema

/-- `is_embedded` (`sqlite_collection.rs:59-61`). -/
def OpenedCollection.isEmbedded (c : OpenedCollection) : Bool := c.collection.idName.isNone

/-- `get_collections` (`sqlite_open.rs:82-111`) with the indexes. -/
def openCollections (schemas : List IsarSchema) : Option (List OpenedCollection) :=
  schemas.mapM fun schema => (openCollection schemas schema).map fun collection =>
    { collection, indexes := schema.indexes }

/-- `str::strip_prefix`. -/
def stripPrefix (start name : String) : Option String :=
  if start.toList.isPrefixOf name.toList then
    some (String.ofList (name.toList.drop start.toList.length))
  else none

/-- The position of the target that is read from a declared type (`sqlite_verify.rs:33-41`); one that
is no collection is a corruption. -/
def targetPosition (cols : List OpenedCollection) : Option String → Option (Option UInt16)
  | some name => (cols.findIdx? fun c => c.collection.name == name).map fun position =>
      some (UInt16.ofNat position)
  | none => some none

/-- The checks on one column (`sqlite_verify.rs:31-54`). -/
def verifyColumn (cols : List OpenedCollection) (collection : SQLiteCollection)
    (column : String × String) : Bool :=
  let (dataType, targetCollection) := sqlDataType column.2
  (targetPosition cols targetCollection).any fun targetIndex =>
    (collection.properties.find? fun p => p.name == column.1).any fun prop =>
      prop.dataType == dataType && prop.collectionIndex == targetIndex

/-- The check on one index (`sqlite_verify.rs:64-72`). -/
def verifyIndex (table : String) (indexes : List IndexSchema) (index : SqlIndex) : Bool :=
  indexes.any fun i => some i.name == stripPrefix (table ++ "_") index.name &&
    i.unique == index.unique && i.properties == index.columns

/-- The columns that are kept for the check (`sqlite_verify.rs:25`). -/
def Table.checked (t : Table) : List (String × String) :=
  t.columns.filter fun c => c.1 != idColumn && c.2 != "INTEGER"

/-- One turn of the loop over the tables (`sqlite_verify.rs:21-73`). -/
def verifyTable (cols : List OpenedCollection) (c : OpenedCollection) (t : Table) : Bool :=
  t.columns.length == t.checked.length + 1 &&
    t.checked.length == c.collection.properties.length &&
    t.checked.all (verifyColumn cols c.collection) &&
    t.indexes.length == c.indexes.length && t.indexes.all (verifyIndex t.name c.indexes)

/-- `verify_sqlite` (`sqlite_verify.rs:5-77`). -/
def verifySqlite (db : Catalog) (cols : List OpenedCollection) : Result Unit :=
  let tableNames := sortNames ((cols.filter fun c => !c.isEmbedded).map fun c => c.collection.name)
  if sortNames db.tableNames = tableNames ∧ tableNames.all fun name =>
      (cols.find? fun c => c.collection.name == name).any fun c =>
        (db.table name).any (verifyTable cols c) then .ok ()
  else fail .dbCorrupted

/-! ## What the check is for -/

/-- The columns beside the id. -/
def Table.others (t : Table) : List (String × String) := t.columns.filter fun c => c.1 != idColumn

/-- Only the id is declared `INTEGER`. The check takes any column that is declared so for the id. -/
def Declared (columns : List (String × String)) : Prop :=
  ∀ c ∈ columns, c.1 ≠ idColumn → c.2 ≠ "INTEGER"

/-- The table has the id, a column for each property and the indexes of the collection, and nothing
else. -/
structure Table.Fits (t : Table) (c : IsarSchema) : Prop where
  id : idColumn ∈ t.columns.map Prod.fst
  properties : (t.others.map readColumn).Perm c.named
  indexes : t.indexes.Perm (c.indexes.map (sqlIndex c.name))

/-- The catalog holds the tables of the collections, and no others. -/
structure Catalog.Holds (db : Catalog) (schemas : List IsarSchema) : Prop where
  names : db.tableNames.Perm (collectionNames schemas)
  fits : ∀ c ∈ schemas, c.embedded = false → ∃ t ∈ db, t.name = c.name ∧ t.Fits c

/-- Schemas whose collections can be told from what SQLite reports: the embedded ones are those without
an id, the targets of objects are decoded, and the names of indexes survive. -/
structure Checkable (schemas : List IsarSchema) : Prop where
  verified : verifySchemas schemas = .ok ()
  distinct : (schemas.map IsarSchema.name).Nodup
  few : schemas.length ≤ 2 ^ 16
  keyed : ∀ c ∈ schemas, c.embedded = c.idName.isNone
  decodes : ∀ c ∈ schemas, Decodes c
  plain : ∀ c ∈ schemas, c.embedded = false → PlainIndexes c

end IsarPlus.Sqlite
