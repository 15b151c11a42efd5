import IsarPlus.Lib.Run
import IsarPlus.Native.Database

/-!
# Write transactions and their commit

`NativeTxn::guard` and `commit` (`isar_core/src/native/native_txn.rs:53-95`) over the storage library,
whose transactions are taken as documented: one that is marked broken keeps nothing when it is
committed, and the code that says so is none of its errors.
-/

namespace IsarPlus.Native
open ByteBuffer OrderedStore

/-! ## Return codes -/

def mdbxSuccess : Int32 := 0
def mdbxResultTrue : Int32 := -1
def mdbxMapFull : Int32 := -30792

section
variable (strerror : Int32 → String)

/-- `mdbx_error` (`native/mdbx/mod.rs:50-65`). -/
def mdbxError (errCode : Int32) : IsarError :=
  if errCode = mdbxMapFull then .dbFull else .dbError errCode (strerror errCode)

/-- `mdbx_result` (`native/mdbx/mod.rs:40-47`). -/
def mdbxResult (errCode : Int32) : Result Unit :=
  if errCode = mdbxSuccess ∨ errCode = mdbxResultTrue then pure ()
  else if errCode = mdbxMapFull then fail .dbFull
  else fail (mdbxError strerror errCode)

end

/-! ## Guarded operations -/

/-- A write transaction with what it has written so far. -/
structure WriteTxn where
  txn : NativeTxn
  broken : Bool

/-- An operation on one of the collections. -/
structure Call where
  collection : NativeCollection
  operation : Operation

/-- `save` refuses an object beyond the limit before the guarded operation begins
(`native_insert.rs:77-79`). -/
def Call.refused (call : Call) : Bool :=
  match call.operation with
  | .save _ object => maxObjSize < object.length
  | _ => false

/-- `guard` (`native_txn.rs:53-63`) around a job that has left the transaction like this. -/
def WriteTxn.guard (w : WriteTxn) (txn : NativeTxn) (result : Result Unit) : WriteTxn :=
  { txn, broken := match result with
    | .ok _ => w.broken
    | .error _ => true }

/-- An operation and what it returns. Any guarded one can fail, wherever it has got to. -/
inductive WriteTxn.Step (xxh3_64 : Bytes → UInt64) :
    WriteTxn → Call × Result Unit → WriteTxn → Prop
  | refused {w : WriteTxn} {call : Call} (beyond : call.refused = true) :
      Step xxh3_64 w (call, fail .objectLimitReached) w
  | done {w : WriteTxn} {call : Call} {txn : NativeTxn}
      (performed : call.collection.perform xxh3_64 w.txn call.operation = .ok txn) :
      Step xxh3_64 w (call, .ok ()) (w.guard txn (.ok ()))
  | failed {w : WriteTxn} {call : Call} {txn : NativeTxn} {e : IsarError}
      (guarded : call.refused = false) :
      Step xxh3_64 w (call, fail e) (w.guard txn (fail e))

/-! ## The commit -/

/-- What `mdbx_txn_commit_ex` returns, and whether it has kept the transaction. -/
inductive CommitEx : Bool → Int32 → Bool → Prop
  | kept : CommitEx false mdbxSuccess true
  | refused {errCode : Int32} (success : errCode ≠ mdbxSuccess) (other : errCode ≠ mdbxResultTrue) :
    CommitEx false errCode false
  | broken : CommitEx true mdbxResultTrue false

/-- After `commit_txn`: what it has returned, what is stored, and the changes that
`notify_watchers` was called with. -/
structure Outcome where
  result : Result Unit
  storage : Storage
  notified : Option (List Change)

/-- `commit` (`native_txn.rs:91-95`). -/
def WriteTxn.commit (strerror : Int32 → String) (w : WriteTxn) (s : Storage) (errCode : Int32)
    (kept : Bool) : Outcome :=
  let storage := if kept then s.commitTxn w.txn else s
  match mdbxResult strerror errCode with
  | .ok _ => { result := .ok (), storage, notified := some w.txn.changeSet }
  | .error e => { result := .error e, storage, notified := none }

/-! ## What a commit promises -/

/-- The transaction after these operations. -/
def performAll (xxh3_64 : Bytes → UInt64) (txn : NativeTxn) (calls : List Call) :
    Result NativeTxn :=
  calls.foldlM (fun txn call => call.collection.perform xxh3_64 txn call.operation) txn

/-- The calls that have returned without an error. -/
def succeeded (calls : List (Call × Result Unit)) : List Call :=
  (calls.filter fun call => decide (call.2 = .ok ())).map Prod.fst

/-- A guarded operation has returned an error. -/
def SomeFailed (calls : List (Call × Result Unit)) : Prop :=
  ∃ call ∈ calls, call.1.refused = false ∧ call.2 ≠ .ok ()

/-- A commit that succeeds has stored what the successful operations make of the storage, and tells
the watchers only then; behind a failed operation it fails, stores nothing and tells nobody. -/
def Outcome.Honest (xxh3_64 : Bytes → UInt64) (s : Storage) (counters : String → Int64)
    (calls : List (Call × Result Unit)) (kept : Bool) (o : Outcome) : Prop :=
  (o.result = .ok () →
    (∃ txn, performAll xxh3_64 (s.beginTxn counters) (succeeded calls) = .ok txn ∧
      o.storage = s.commitTxn txn) ∧
    (o.notified.isSome = true → kept = true)) ∧
  (SomeFailed calls → o.result ≠ .ok () ∧ o.storage = s ∧ o.notified = none)

end IsarPlus.Native
