import IsarPlus.Native.Database
import IsarPlus.Verify.Sqlite

/-!
# The check of a native database

`verify` of an instance (`isar_core/src/native/native_verify.rs`) compares the names of the databases
in the file with those of the opened collections.
-/

namespace IsarPlus.Native
open OrderedStore

/-- A database of this name is in the file; `_info` is there since the first opening. -/
def Storage.HasDb (s : Storage) (db : Db) : Prop :=
  db = "_info" ∨ (s.primary db).isSome ∨ (s.index db).isSome

/-- What `db_names` reads from the unnamed database (`native_txn.rs:81-90`). -/
structure Storage.DbNames (s : Storage) (names : List Db) : Prop where
  nodup : names.Nodup
  mem : ∀ db, db ∈ names ↔ s.HasDb db

/-- The names that are looked for (`native_verify.rs:6-15`). -/
def verifiedNames (collections : List NativeCollection) : List Db :=
  "_info" :: (collections.filter fun col => !col.isEmbedded).flatMap fun col =>
    col.name :: col.indexes.map fun index => indexDb col.name index.name

/-- `verify_native` (`native_verify.rs:5-26`) with the names that `db_names` returns. -/
def verifyNative (actualDbNames : List Db) (collections : List NativeCollection) : Result Unit :=
  if sortNames (verifiedNames collections) = sortNames actualDbNames then .ok ()
  else fail .dbCorrupted

/-- Every database belongs to a stored schema. -/
structure Storage.Accounted (s : Storage) : Prop where
  primary : ∀ db, (s.primary db).isSome → ∃ e, s.info.find db = some e
  index : ∀ db, (s.index db).isSome → ∃ name e, s.info.find name = some e ∧
    ∃ i ∈ e.indexes, db = indexDb name i.name

end IsarPlus.Native
