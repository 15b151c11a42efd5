import IsarPlus.Core.Error

/-!
# SQLite transactions

`isar_core/src/sqlite/sqlite_txn.rs`, the transactions of `sqlite/sqlite_instance.rs` and
`sqlite/sqlite_insert.rs`, and the import of `core/de.rs`. How SQLite answers the statements of a
call is data of the call. An instance is modelled together with the transactions that its caller
holds: a transaction that is passed by value is gone when the call does not return it.
-/

namespace IsarPlus.Sqlite

/-! ## The connection -/

/-- How SQLite answers a statement. With some errors (a full disk, an I/O error) it rolls the
transaction back. -/
inductive Response where
  | ok
  | error (e : IsarError) (rolledBack : Bool)
  deriving DecidableEq

/-- The statements that open or end a transaction, and all others. -/
inductive Statement where
  | begin | commit | rollback | other
  deriving DecidableEq

/-- `SQLite3`: whether it is inside `BEGIN`, and its answers to the statements to come; a statement
without one succeeds. -/
structure SQLite3 where
  inTransaction : Bool
  responses : List Response

/-- `prepare(sql)?.step()?`. Transactions do not nest. -/
def SQLite3.execute (sqlite : SQLite3) (statement : Statement) : Except IsarError Unit × SQLite3 :=
  match sqlite.responses with
  | .error e rolledBack :: responses =>
    (.error e, ⟨sqlite.inTransaction && !rolledBack, responses⟩)
  | _ =>
    let responses := sqlite.responses.tail
    match statement, sqlite.inTransaction with
    | .begin, false => (.ok (), ⟨true, responses⟩)
    | .begin, true =>
      (.error (.dbError 1 "cannot start a transaction within a transaction"), ⟨true, responses⟩)
    | .commit, true | .rollback, true => (.ok (), ⟨false, responses⟩)
    | .commit, false =>
      (.error (.dbError 1 "cannot commit - no transaction is active"), ⟨false, responses⟩)
    | .rollback, false =>
      (.error (.dbError 1 "cannot rollback - no transaction is active"), ⟨false, responses⟩)
    | .other, inTransaction => (.ok (), ⟨inTransaction, responses⟩)

/-- Statements one after the other, up to the first that fails. -/
def SQLite3.executeAll (sqlite : SQLite3) : Nat → Except IsarError Unit × SQLite3
  | 0 => (.ok (), sqlite)
  | n + 1 =>
    match sqlite.execute .other with
    | (.ok _, sqlite) => sqlite.executeAll n
    | (.error e, sqlite) => (.error e, sqlite)

/-! ## Transactions -/

/-- `SQLiteTxn` (`sqlite_txn.rs:10-15`) without its change set. -/
structure SQLiteTxn where
  write : Bool
  active : Bool
  deriving DecidableEq

namespace SQLiteTxn

/-- `new` (`sqlite_txn.rs:18-27`). -/
def new (sqlite : SQLite3) (write : Bool) : Except IsarError SQLiteTxn × SQLite3 :=
  match sqlite.execute .begin with
  | (.ok _, sqlite) => (.ok ⟨write, true⟩, sqlite)
  | (.error e, sqlite) => (.error e, sqlite)

/-- `get_sqlite` (`sqlite_txn.rs:29-37`). -/
def getSqlite (txn : SQLiteTxn) (write : Bool) : Except IsarError Unit :=
  if !txn.active then .error .transactionClosed
  else if write && !txn.write then .error .writeTxnRequired
  else .ok ()

/-- `guard` (`sqlite_txn.rs:43-56`): a failed job is rolled back and closes the transaction, unless
the `ROLLBACK` fails too. -/
def guard (txn : SQLiteTxn) (sqlite : SQLite3) (job : SQLite3 → Except IsarError Unit × SQLite3) :
    Except IsarError Unit × SQLiteTxn × SQLite3 :=
  if !txn.active then (.error .transactionClosed, txn, sqlite)
  else
    match job sqlite with
    | (.ok _, sqlite) => (.ok (), txn, sqlite)
    | (.error e, sqlite) =>
      match sqlite.execute .rollback with
      | (.ok _, sqlite) => (.error e, { txn with active := false }, sqlite)
      | (.error e, sqlite) => (.error e, txn, sqlite)

/-- `commit` (`sqlite_txn.rs:84-92`). -/
def commit (txn : SQLiteTxn) (sqlite : SQLite3) : Except IsarError Unit × SQLite3 :=
  if !txn.active then (.error .transactionClosed, sqlite) else sqlite.execute .commit

/-- `abort` (`sqlite_txn.rs:94-102`) ignores how the `ROLLBACK` ends. -/
def abort (txn : SQLiteTxn) (sqlite : SQLite3) : SQLite3 :=
  if txn.active then (sqlite.execute .rollback).2 else sqlite

end SQLiteTxn

/-- `SQLiteQuery::update` and `delete` (`sqlite_query.rs:137-316`): what is read before the write
needs no write transaction. -/
def modifyJob (txn : SQLiteTxn) (reads writes : Nat) (sqlite : SQLite3) :
    Except IsarError Unit × SQLite3 :=
  match sqlite.executeAll reads with
  | (.error e, sqlite) => (.error e, sqlite)
  | (.ok _, sqlite) =>
    match txn.getSqlite true with
    | .error e => (.error e, sqlite)
    | .ok _ => sqlite.executeAll writes

/-! ## Inserts -/

/-- `MAX_PARAM_COUNT` (`sqlite3.rs:18`). -/
def maxParamCount : Nat := 999

/-- The objects of one `INSERT` (`sql.rs:99-102`). -/
def insertBatchSize (propertyCount count : Nat) : Nat :=
  min count (maxParamCount / (propertyCount + 1))

/-- `SQLiteInsert` (`sqlite_insert.rs:49-62`), with the number of properties of its collection. -/
structure SQLiteInsert where
  txn : SQLiteTxn
  propertyCount : Nat
  remaining : Nat
  batchRemaining : Nat
  deriving DecidableEq

namespace SQLiteInsert

/-- `SQLiteInsert::new` (`sqlite_insert.rs:65-84`). -/
def new (txn : SQLiteTxn) (sqlite : SQLite3) (propertyCount count : Nat) :
    Except IsarError SQLiteInsert × SQLite3 :=
  match txn.getSqlite true with
  | .error e => (.error e, sqlite)
  | .ok _ =>
    match sqlite.execute .other with
    | (.error e, sqlite) => (.error e, sqlite)
    | (.ok _, sqlite) =>
      let batchSize := insertBatchSize propertyCount count
      (.ok ⟨txn, propertyCount, count - batchSize, batchSize⟩, sqlite)

/-- `TxnWithStatement::next` and what `save` makes of it (`sqlite_insert.rs:34-44`, `:138-143`). -/
def next (insert : SQLiteInsert) (sqlite : SQLite3) :
    Except IsarError Unit × SQLiteInsert × SQLite3 :=
  match insert.txn.guard sqlite fun sqlite => sqlite.execute .other with
  | (.error e, txn, sqlite) => (.error e, { insert with txn }, sqlite)
  | (.ok _, txn, sqlite) =>
    match txn.getSqlite true with
    | .error e => (.error e, { insert with txn }, sqlite)
    | .ok _ =>
      match sqlite.execute .other with
      | (.error e, sqlite) => (.error e, { insert with txn }, sqlite)
      | (.ok _, sqlite) =>
        let batchSize := insertBatchSize insert.propertyCount insert.remaining
        (.ok (), { insert with
          txn, remaining := insert.remaining - batchSize, batchRemaining := batchSize }, sqlite)

/-- `save` (`sqlite_insert.rs:97-148`): the id is bound, and a full batch is written before the next
one. -/
def save (insert : SQLiteInsert) (sqlite : SQLite3) :
    Except IsarError Unit × SQLiteInsert × SQLite3 :=
  if 0 < insert.batchRemaining then
    match sqlite.execute .other with
    | (.error e, sqlite) => (.error e, insert, sqlite)
    | (.ok _, sqlite) =>
      let insert := { insert with batchRemaining := insert.batchRemaining - 1 }
      if insert.batchRemaining = 0 ∧ 0 < insert.remaining then insert.next sqlite
      else (.ok (), insert, sqlite)
  else (.error .unsupportedOperation, insert, sqlite)

/-- `finish` (`sqlite_insert.rs:46-49`, `:150-196`). -/
def finish (insert : SQLiteInsert) (sqlite : SQLite3) : Except IsarError SQLiteTxn × SQLite3 :=
  match insert.txn.guard sqlite fun sqlite => sqlite.execute .other with
  | (.error e, _, sqlite) => (.error e, sqlite)
  | (.ok _, txn, sqlite) => (.ok txn, sqlite)

end SQLiteInsert

/-! ## Import -/

/-- `BULK_IMPORT_COUNT` (`de.rs:13`). -/
def bulkImportCount : Nat := 100

/-- An element of the imported list: an object with or without an id, or no object. -/
inductive ImportObject where
  | object (hasId : Bool)
  | malformed
  deriving DecidableEq

/-- The loop of `import` over the objects of a batch (`de.rs:38-57`). -/
def importObjects (insert : SQLiteInsert) (sqlite : SQLite3) :
    List ImportObject → Except IsarError SQLiteInsert × SQLite3
  | [] => (.ok insert, sqlite)
  | .malformed :: _ => (.error (.jsonError "invalid type"), sqlite)
  | .object false :: _ => (.error (.jsonError "Missing id property"), sqlite)
  | .object true :: objects =>
    match insert.save sqlite with
    | (.error e, _, sqlite) => (.error e, sqlite)
    | (.ok _, insert, sqlite) => importObjects insert sqlite objects

/-- `import` (`de.rs:31-62`) into a collection, given by its number of properties. -/
def importBatch (txn : SQLiteTxn) (sqlite : SQLite3) (collection : Option Nat)
    (objects : List ImportObject) : Except IsarError SQLiteTxn × SQLite3 :=
  match collection with
  | none => (.error .illegalArgument, sqlite)
  | some propertyCount =>
    match SQLiteInsert.new txn sqlite propertyCount objects.length with
    | (.error e, sqlite) => (.error e, sqlite)
    | (.ok insert, sqlite) =>
      match importObjects insert sqlite objects with
      | (.error e, sqlite) => (.error e, sqlite)
      | (.ok insert, sqlite) => insert.finish sqlite

/-- `visit_seq` (`de.rs:75-97`); a list that ends in a syntax error fails after the batches before
it. -/
def visitSeq (collection : Option Nat) (wellFormed : Bool) (txn : SQLiteTxn) (sqlite : SQLite3)
    (buffer : List ImportObject) : List ImportObject → Except IsarError SQLiteTxn × SQLite3
  | [] =>
    if !wellFormed then (.error (.jsonError "expected value"), sqlite)
    else if !buffer.isEmpty then importBatch txn sqlite collection buffer
    else (.ok txn, sqlite)
  | object :: objects =>
    let buffer := buffer ++ [object]
    if bulkImportCount ≤ buffer.length then
      match importBatch txn sqlite collection buffer with
      | (.error e, sqlite) => (.error e, sqlite)
      | (.ok txn, sqlite) => visitSeq collection wellFormed txn sqlite [] objects
    else visitSeq collection wellFormed txn sqlite buffer objects

/-! ## Instances -/

/-- `SQLiteInstance` (`sqlite_instance.rs:57-61`) with the write mutex, whether SQLite is inside
`BEGIN`, the number of properties of each collection, and what the caller holds: transactions, and
inserts with the transactions they own. -/
structure SQLiteInstance where
  collections : List Nat
  txnActive : Bool
  writeMutex : Bool
  inTransaction : Bool
  txns : List SQLiteTxn
  inserts : List SQLiteInsert
  deriving DecidableEq

/-- The calls on an instance; a transaction or an insert is named by its place among those held. -/
inductive Call where
  | beginTxn (write : Bool)
  | commitTxn (txn : Nat)
  | abortTxn (txn : Nat)
  | insert (txn : Nat) (collectionIndex : UInt16) (count : Nat)
  | save (insert : Nat)
  | finish (insert : Nat)
  | abortInsert (insert : Nat)
  | update (txn : Nat) (collectionIndex : UInt16) (reads writes : Nat)
  | delete (txn : Nat) (collectionIndex : UInt16) (reads writes : Nat)
  | clear (txn : Nat) (collectionIndex : UInt16) (reads writes : Nat)
  | queryUpdate (txn : Nat) (collectionIndex : UInt16) (reads writes : Nat)
  | queryDelete (txn : Nat) (collectionIndex : UInt16) (reads writes : Nat)
  | importJson (txn : Nat) (collectionIndex : UInt16) (wellFormed : Bool)
      (objects : List ImportObject)

namespace SQLiteInstance

/-- A call that returns. -/
abbrev Returned := SQLiteInstance × Except IsarError Unit

/-- `get_instance` and `open_instance`: nothing is active. -/
def start (collections : List Nat) : SQLiteInstance where
  collections := collections
  txnActive := false
  writeMutex := false
  inTransaction := false
  txns := []
  inserts := []

/-- `begin_txn` (`sqlite_instance.rs:149-158`); a held mutex blocks the caller. -/
def beginTxn (s : SQLiteInstance) (responses : List Response) (write : Bool) : Option Returned :=
  if write && s.writeMutex then none
  else
    let s := { s with writeMutex := s.writeMutex || write }
    if s.txnActive then some (s, .error .transactionActive)
    else
      let s := { s with txnActive := true }
      match SQLiteTxn.new ⟨s.inTransaction, responses⟩ write with
      | (.error e, sqlite) => some ({ s with inTransaction := sqlite.inTransaction }, .error e)
      | (.ok txn, sqlite) =>
        some ({ s with inTransaction := sqlite.inTransaction, txns := s.txns ++ [txn] }, .ok ())

/-- The instance without the transaction that a call takes by value. -/
def take (s : SQLiteInstance) (txn : Nat) : SQLiteInstance := { s with txns := s.txns.eraseIdx txn }

/-- `commit_txn` (`sqlite_instance.rs:160-168`). -/
def commitTxn (s : SQLiteInstance) (responses : List Response) (txn : Nat) : Option Returned := do
  let held ← s.txns[txn]?
  let (result, sqlite) := held.commit ⟨s.inTransaction, responses⟩
  pure ({ s.take txn with
    txnActive := false
    inTransaction := sqlite.inTransaction
    writeMutex := s.writeMutex && !held.write }, result)

/-- `abort_txn` (`sqlite_instance.rs:170-177`). -/
def abortTxn (s : SQLiteInstance) (responses : List Response) (txn : Nat) : Option Returned := do
  let held ← s.txns[txn]?
  let sqlite := held.abort ⟨s.inTransaction, responses⟩
  pure ({ s.take txn with
    txnActive := false
    inTransaction := sqlite.inTransaction
    writeMutex := s.writeMutex && !held.write }, .ok ())

/-- `insert` (`sqlite_instance.rs:192-205`) takes the transaction. -/
def insert (s : SQLiteInstance) (responses : List Response) (txn : Nat) (collectionIndex : UInt16)
    (count : Nat) : Option Returned := do
  let held ← s.txns[txn]?
  let s := s.take txn
  match s.collections[collectionIndex.toNat]? with
  | none => pure (s, .error .illegalArgument)
  | some propertyCount =>
    match SQLiteInsert.new held ⟨s.inTransaction, responses⟩ propertyCount count with
    | (.error e, sqlite) => pure ({ s with inTransaction := sqlite.inTransaction }, .error e)
    | (.ok insert, sqlite) =>
      pure ({ s with inTransaction := sqlite.inTransaction, inserts := s.inserts ++ [insert] },
        .ok ())

def save (s : SQLiteInstance) (responses : List Response) (insert : Nat) : Option Returned := do
  let held ← s.inserts[insert]?
  let (result, held, sqlite) := held.save ⟨s.inTransaction, responses⟩
  pure ({ s with
    inTransaction := sqlite.inTransaction, inserts := s.inserts.set insert held }, result)

/-- `finish` takes the insert and gives its transaction back. -/
def finish (s : SQLiteInstance) (responses : List Response) (insert : Nat) : Option Returned := do
  let held ← s.inserts[insert]?
  let s := { s with inserts := s.inserts.eraseIdx insert }
  match held.finish ⟨s.inTransaction, responses⟩ with
  | (.error e, sqlite) => pure ({ s with inTransaction := sqlite.inTransaction }, .error e)
  | (.ok txn, sqlite) =>
    pure ({ s with inTransaction := sqlite.inTransaction, txns := s.txns ++ [txn] }, .ok ())

/-- `isar_plus_insert_abort` (`isar_core_ffi/src/insert.rs`) drops the insert. -/
def abortInsert (s : SQLiteInstance) (insert : Nat) : Option Returned := do
  let _ ← s.inserts[insert]?
  pure ({ s with inserts := s.inserts.eraseIdx insert }, .ok ())

/-- `query_update` and `query_delete` (`sqlite_instance.rs:306-341`) borrow the transaction. -/
def modify (s : SQLiteInstance) (responses : List Response) (txn : Nat) (collectionIndex : UInt16)
    (reads writes : Nat) : Option Returned := do
  let held ← s.txns[txn]?
  match s.collections[collectionIndex.toNat]? with
  | none => pure (s, .error .illegalArgument)
  | some _ =>
    let (result, held', sqlite) :=
      held.guard ⟨s.inTransaction, responses⟩ (modifyJob held reads writes)
    pure ({ s with
      inTransaction := sqlite.inTransaction, txns := s.txns.set txn held' }, result)

/-- `import_json` (`core/instance.rs:132-150`) takes the transaction. `message` is the text that
`serde_json` makes of an error. -/
def importJson (message : IsarError → String) (s : SQLiteInstance) (responses : List Response)
    (txn : Nat) (collectionIndex : UInt16) (wellFormed : Bool) (objects : List ImportObject) :
    Option Returned := do
  let held ← s.txns[txn]?
  let s := s.take txn
  let collection := s.collections[collectionIndex.toNat]?
  match visitSeq collection wellFormed held ⟨s.inTransaction, responses⟩ [] objects with
  | (.error e, sqlite) =>
    pure ({ s with inTransaction := sqlite.inTransaction }, .error (.jsonError (message e)))
  | (.ok txn, sqlite) =>
    pure ({ s with inTransaction := sqlite.inTransaction, txns := s.txns ++ [txn] }, .ok ())

/-- One call; `none` if it does not return or names nothing that the caller holds. -/
def call (message : IsarError → String) (s : SQLiteInstance) (responses : List Response) :
    Call → Option Returned
  | .beginTxn write => s.beginTxn responses write
  | .commitTxn txn => s.commitTxn responses txn
  | .abortTxn txn => s.abortTxn responses txn
  | .insert txn collectionIndex count => s.insert responses txn collectionIndex count
  | .save insert => s.save responses insert
  | .finish insert => s.finish responses insert
  | .abortInsert insert => s.abortInsert insert
  | .update txn collectionIndex reads writes | .delete txn collectionIndex reads writes
  | .clear txn collectionIndex reads writes | .queryUpdate txn collectionIndex reads writes
  | .queryDelete txn collectionIndex reads writes =>
    s.modify responses txn collectionIndex reads writes
  | .importJson txn collectionIndex wellFormed objects =>
    s.importJson message responses txn collectionIndex wellFormed objects

/-- The transactions that are not committed, aborted or consumed. -/
def live (s : SQLiteInstance) : List SQLiteTxn := s.txns ++ s.inserts.map SQLiteInsert.txn

end SQLiteInstance

end IsarPlus.Sqlite
