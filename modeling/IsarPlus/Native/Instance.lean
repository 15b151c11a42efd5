import IsarPlus.Native.Collection

/-!
# Runs of operations on a native collection

`isar_core/src/native/native_insert.rs` and the operations of `native/native_instance.rs`. The ids
that a query matched are data of its update or delete: they are collected before the first object
changes. An operation that fails marks its transaction broken, so that it leaves no state behind.
-/

namespace IsarPlus.Native
open ByteBuffer OrderedStore

/-- `NativeInsert` (`native_insert.rs:42-49`) without the transaction it owns. -/
structure NativeInsert where
  remaining : Nat
  object : IsarSerializer

/-- One call on an instance, for a fixed collection. -/
inductive Operation where
  | save (id : Int64) (object : Bytes)
  | update (id : Int64) (updates : List (UInt16 × Option IsarValue))
  | delete (id : Int64)
  | clear
  | queryUpdate (ids : List Int64) (updates : List (UInt16 × Option IsarValue))
  | queryDelete (ids : List Int64)

namespace NativeCollection

variable (xxh3_64 : Bytes → UInt64)

/-- `NativeInsert::new` (`native_insert.rs:52-68`). -/
def newInsert (c : NativeCollection) (count : Nat) : Option NativeInsert := do
  let object ← IsarSerializer.new [] 0 c.staticSize
  pure { remaining := count, object }

/-- The part of `NativeInsert::save` that stores a finished object (`native_insert.rs:76-81`). -/
def saveObject (c : NativeCollection) (txn : NativeTxn) (id : Int64) (object : Bytes) :
    Result NativeTxn :=
  if maxObjSize < object.length then fail .objectLimitReached else c.put xxh3_64 txn id object

/-- `NativeInsert::save` (`native_insert.rs:74-90`). -/
def save (c : NativeCollection) (txn : NativeTxn) (insert : NativeInsert) (id : Int64) :
    Result (NativeTxn × NativeInsert) :=
  if 0 < insert.remaining then do
    let txn ← c.saveObject xxh3_64 txn id insert.object.finish
    let object ← orPanic (IsarSerializer.new [] 0 c.staticSize)
    pure (txn, { remaining := insert.remaining - 1, object })
  else fail .unsupportedOperation

/-- `query_update` (`native_instance.rs:262-284`) for the ids that the query matched. -/
def queryUpdate (c : NativeCollection) (txn : NativeTxn) (ids : List Int64)
    (updates : List (UInt16 × Option IsarValue)) : Result (NativeTxn × Nat) := do
  let txn ← ids.foldlM (fun txn id => (c.update xxh3_64 txn id updates).map Prod.fst) txn
  pure (txn, ids.length)

/-- `query_delete` (`native_instance.rs:286-305`) for the ids that the query matched. -/
def queryDelete (c : NativeCollection) (txn : NativeTxn) (ids : List Int64) :
    Result (NativeTxn × Nat) := do
  let txn ← ids.foldlM (fun txn id => (c.delete xxh3_64 txn id).map Prod.fst) txn
  pure (txn, ids.length)

/-- The transaction after one operation. -/
def perform (c : NativeCollection) (txn : NativeTxn) : Operation → Result NativeTxn
  | .save id object => c.saveObject xxh3_64 txn id object
  | .update id updates => (c.update xxh3_64 txn id updates).map Prod.fst
  | .delete id => (c.delete xxh3_64 txn id).map Prod.fst
  | .clear => c.clear xxh3_64 txn
  | .queryUpdate ids updates => (c.queryUpdate xxh3_64 txn ids updates).map Prod.fst
  | .queryDelete ids => (c.queryDelete xxh3_64 txn ids).map Prod.fst

/-- The transaction after a sequence of operations. -/
def run (c : NativeCollection) (txn : NativeTxn) (operations : List Operation) :
    Result NativeTxn :=
  operations.foldlM (c.perform xxh3_64) txn

end NativeCollection

/-- A new database. -/
def NativeTxn.empty : NativeTxn where
  primary := fun _ => .empty
  index := fun _ => .empty
  autoIncrement := fun _ => 1
  changeSet := []

end IsarPlus.Native
