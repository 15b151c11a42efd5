import IsarPlus.Core.Watcher
import IsarPlus.Sqlite.TableRows

/-!
# Watchers of SQLite collections

The update hook of `isar_core/src/sqlite/sqlite_txn.rs` in a write transaction, and the operations
of `sqlite/sqlite_instance.rs` that install and remove it. There is one hook for the connection;
its closure keeps the watchers of the collection that installed it. The changed rows of all tables
are noted down beside it. The queries of watchers match every object (`sqlite_query.rs:351-357`).
-/

namespace IsarPlus.Sqlite

/-- The write transaction of an instance: its tables, the watchers of the collections with the
change set, the collection behind the update hook, and the rows changed so far. -/
structure WatchedTxn (Q R : Type) where
  active : Bool
  tables : List (TableRows R)
  watching : Watching Q
  hook : Option Nat
  changed : List (Nat × RowChange)

/-- The calls on the transaction. An insert comes with the rows of its batches, and the calls that
watchers with details want to know of with what `ChangeDetector` finds. -/
inductive WatchedCall (R : Type) where
  | insert (collectionIndex : UInt16) (rows : TableRows R) (details : List ChangeDetail)
  | update (collectionIndex : UInt16) (id : Int64) (set : R → R) (details : List ChangeDetail)
  | delete (collectionIndex : UInt16) (id : Int64) (details : List ChangeDetail)
  | queryUpdate (query : SQLiteQuery R) (offset limit : Option UInt32) (set : R → R)
      (details : List ChangeDetail)
  | queryDelete (query : SQLiteQuery R) (offset limit : Option UInt32)
      (details : List ChangeDetail)
  | clear (collectionIndex : UInt16) (details : List ChangeDetail)

/-- The query of `update` and `delete` for one id (`sqlite_instance.rs:213-220`). -/
def SQLiteQuery.ofId {R : Type} (collectionIndex : UInt16) (id : Int64) : SQLiteQuery R where
  collectionIndex := collectionIndex
  filter := some fun rowid _ => rowid = id
  sortDistinct := none

/-- The query of `clear` (`sqlite_instance.rs:250`). -/
def SQLiteQuery.all {R : Type} (collectionIndex : UInt16) : SQLiteQuery R where
  collectionIndex := collectionIndex
  filter := none
  sortDistinct := none

namespace WatchedTxn

variable {Q R : Type}

/-- `begin_txn`, with the watchers there are. A hook that a failed transaction has left behind only
reaches the change set of that transaction. -/
def start (tables : List (TableRows R)) (watching : Watching Q) : WatchedTxn Q R where
  active := true
  tables := tables
  watching := { watching with changeSet := .new }
  hook := none
  changed := []

/-- `monitor_changes` (`sqlite_txn.rs:58-80`). -/
def monitorChanges (s : WatchedTxn Q R) (collection : Nat) : WatchedTxn Q R :=
  match s.watching.collections[collection]? with
  | some cw =>
    if cw.hasWatchers || cw.hasDetailedWatchers then
      { s with
        watching := s.watching.record collection fun cs cw =>
          cs.registerDetailedChangesForWatchers cw
        hook := some collection }
    else s
  | none => s

/-- `stop_monitor_changes` (`sqlite_txn.rs:82-84`). -/
def stopMonitorChanges (s : WatchedTxn Q R) : WatchedTxn Q R := { s with hook := none }

/-- The update hook: its closure registers the rowid, whatever the table
(`sqlite_txn.rs:74-78`, `sqlite3.rs:189-210`). -/
def callHook (hook : Option Nat) (watching : Watching Q) (change : RowChange) : Watching Q :=
  match hook with
  | some collection =>
    if change.reported then
      watching.record collection fun cs cw =>
        cs.registerChange (fun _ _ _ => true) cw change.id ()
    else watching
  | none => watching

/-- A statement has changed rows of a table. -/
def execute (s : WatchedTxn Q R) (collection : Nat) (result : TableRows R × List RowChange) :
    WatchedTxn Q R :=
  { s with
    tables := s.tables.set collection result.1
    watching := result.2.foldl (callHook s.hook) s.watching
    changed := s.changed ++ result.2.map fun change => (collection, change) }

/-- The detailed changes that are registered when a statement is done. -/
def recordDetails (s : WatchedTxn Q R) (collection : Nat) (details : List ChangeDetail) :
    WatchedTxn Q R :=
  { s with watching := s.watching.record collection fun cs cw =>
      if cw.hasDetailedWatchers then details.foldl ChangeSet.registerDetailedChange cs else cs }

variable (unique : Nat → R → R → Bool)

/-- `insert`, the saves and `finish` (`sqlite_instance.rs:192-206`, `sqlite_insert.rs:97-196`): the
hook stays. -/
def insert (s : WatchedTxn Q R) (collectionIndex : UInt16) (rows : TableRows R)
    (details : List ChangeDetail) : WatchedTxn Q R :=
  let collection := collectionIndex.toNat
  match s.tables[collection]? with
  | none => { s with active := false }
  | some table =>
    let s := s.monitorChanges collection
    if !s.active then s
    else
      (s.execute collection (table.insertRows (unique collection) rows)).recordDetails collection
        details

/-- `query_update` (`sqlite_instance.rs:311-328`) and its count. A failed statement is rolled back
and closes the transaction (`guard`, `sqlite_txn.rs:43-56`). -/
def queryUpdate (s : WatchedTxn Q R) (query : SQLiteQuery R) (offset limit : Option UInt32)
    (set : R → R) (details : List ChangeDetail) : Except IsarError Nat × WatchedTxn Q R :=
  let collection := query.collectionIndex.toNat
  match s.tables[collection]? with
  | none => (.error .illegalArgument, s)
  | some table =>
    let s := s.monitorChanges collection
    if !s.active then (.error .transactionClosed, s)
    else
      match query.update (unique collection) table offset limit set with
      | none => (.error (.dbError 19 "UNIQUE constraint failed"), { s with active := false })
      | some result =>
        let s := (s.execute collection result).recordDetails collection details
        (.ok result.2.length, s.stopMonitorChanges)

/-- `query_delete` (`sqlite_instance.rs:330-345`) and its count. -/
def queryDelete (s : WatchedTxn Q R) (query : SQLiteQuery R) (offset limit : Option UInt32)
    (details : List ChangeDetail) : Except IsarError Nat × WatchedTxn Q R :=
  let collection := query.collectionIndex.toNat
  match s.tables[collection]? with
  | none => (.error .illegalArgument, s)
  | some table =>
    let s := s.monitorChanges collection
    if !s.active then (.error .transactionClosed, s)
    else
      let result := query.delete table offset limit
      let s := (s.execute collection result).recordDetails collection details
      (.ok result.2.length, s.stopMonitorChanges)

/-- `update` (`sqlite_instance.rs:208-226`). -/
def update (s : WatchedTxn Q R) (collectionIndex : UInt16) (id : Int64) (set : R → R)
    (details : List ChangeDetail) : Except IsarError Bool × WatchedTxn Q R :=
  match s.queryUpdate unique (.ofId collectionIndex id) none none set details with
  | (.ok count, s) => (.ok (0 < count), s)
  | (.error e, s) => (.error e, s)

/-- `delete` (`sqlite_instance.rs:228-240`). -/
def delete (s : WatchedTxn Q R) (collectionIndex : UInt16) (id : Int64)
    (details : List ChangeDetail) : Except IsarError Bool × WatchedTxn Q R :=
  match s.queryDelete (.ofId collectionIndex id) none none details with
  | (.ok count, s) => (.ok (0 < count), s)
  | (.error e, s) => (.error e, s)

/-- `clear` (`sqlite_instance.rs:252-256`). -/
def clear (s : WatchedTxn Q R) (collectionIndex : UInt16) (details : List ChangeDetail) :
    Except IsarError Unit × WatchedTxn Q R :=
  match s.queryDelete (.all collectionIndex) none none details with
  | (.ok _, s) => (.ok (), s)
  | (.error e, s) => (.error e, s)

/-- The state after a call, however it ends. -/
def step (s : WatchedTxn Q R) : WatchedCall R → WatchedTxn Q R
  | .insert collectionIndex rows details => s.insert unique collectionIndex rows details
  | .update collectionIndex id set details => (s.update unique collectionIndex id set details).2
  | .delete collectionIndex id details => (s.delete collectionIndex id details).2
  | .queryUpdate query offset limit set details =>
    (s.queryUpdate unique query offset limit set details).2
  | .queryDelete query offset limit details => (s.queryDelete query offset limit details).2
  | .clear collectionIndex details => (s.clear collectionIndex details).2

/-- `commit` (`sqlite_txn.rs:82-90`): the simple watchers that are notified. -/
def commit (s : WatchedTxn Q R) : Except IsarError (List Watcher) :=
  if !s.active then .error .transactionClosed else .ok s.watching.changeSet.notified

end WatchedTxn

end IsarPlus.Sqlite
