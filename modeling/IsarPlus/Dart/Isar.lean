import IsarPlus.Lib.Ownership

/-!
# Handles that cross the FFI

The transactions of `isar_plus/lib/src/impl/isar_impl.dart` and the operations of
`isar_collection_impl.dart` and `isar_query_impl.dart`, with the calls into `isar_core_ffi/src` that
pass a transaction, an insert or an update. Such a pointer comes from `Box::into_raw` and is freed by
`Box::from_raw`, also when the function then returns an error. Which calls return an error code, and
where code of the user throws, is data of a run. Results other than these are left out.
-/

namespace IsarPlus.Dart

/-- A pointer from `Box::into_raw`; they are numbered as they are handed out. -/
abbrev Pointer := Nat

/-- The calls of `isar_core_ffi`; `write` stands for the functions of `writer.rs`. -/
inductive FfiCall where
  | txnBegin (write : Bool)
  | txnCommit (txn : Pointer)
  | txnAbort (txn : Pointer)
  | cursor (txn : Pointer)
  | count (txn : Pointer)
  | getSize (txn : Pointer)
  | verify (txn : Pointer)
  | queryCursor (txn : Pointer)
  | queryAggregate (txn : Pointer)
  | delete (txn : Pointer)
  | queryDelete (txn : Pointer)
  | clear (txn : Pointer)
  | importJson (txn : Pointer)
  | insert (txn : Pointer)
  | write (insert : Pointer)
  | insertSave (insert : Pointer)
  | insertFinish (insert : Pointer)
  | insertAbort (insert : Pointer)
  | updateNew
  | updateAddValue (update : Pointer)
  | update (txn update : Pointer)
  | queryUpdate (txn update : Pointer)
  deriving DecidableEq, Repr

namespace FfiCall

/-- The transactions, inserts and updates that a call passes. -/
def passed : FfiCall → List Pointer
  | txnBegin _ | updateNew => []
  | txnCommit p | txnAbort p | cursor p | count p | getSize p | verify p | queryCursor p
  | queryAggregate p | delete p | queryDelete p | clear p | importJson p | insert p | write p
  | insertSave p | insertFinish p | insertAbort p | updateAddValue p => [p]
  | update txn u | queryUpdate txn u => [txn, u]

/-- Those that the function frees (`instance.rs:177-207`, `:337-363`, `insert.rs`, `update.rs`). -/
def consumed : FfiCall → List Pointer
  | txnCommit p | txnAbort p | importJson p | insert p | insertFinish p | insertAbort p => [p]
  | update _ u | queryUpdate _ u => [u]
  | _ => []

end FfiCall

/-- `_IsarImpl`: `_txnPtr` and `_txnWrite`, with the number of pointers handed out, the calls made so
far, and whether the calls to come return an error code; one without an answer succeeds. -/
structure Isar where
  txnPtr : Option Pointer
  txnWrite : Bool
  allocated : Nat
  calls : List FfiCall
  failures : List Bool
  deriving DecidableEq, Repr

/-- How a piece of Dart code ends: it completes or throws. -/
abbrev Ended := Bool × Isar

namespace Isar

/-- An instance without a transaction. -/
def opened (failures : List Bool) : Isar where
  txnPtr := none
  txnWrite := false
  allocated := 0
  calls := []
  failures := failures

/-- A call whose result does not matter. -/
def call (s : Isar) (c : FfiCall) : Isar := { s with calls := s.calls ++ [c] }

/-- The next call returns an error code. -/
def fails (s : Isar) : Bool := s.failures.headD false

/-- A call with `checkNoError`. -/
def checked (s : Isar) (c : FfiCall) : Ended :=
  (!s.fails, { s.call c with failures := s.failures.tail })

/-- A pointer that a call hands out. -/
def allocate (s : Isar) : Pointer × Isar := (s.allocated, { s with allocated := s.allocated + 1 })

/-- A call with `checkNoError` that hands out a pointer. -/
def obtained (s : Isar) (c : FfiCall) : Option Pointer × Isar :=
  match s.checked c with
  | (true, s) => (some s.allocate.1, s.allocate.2)
  | (false, s) => (none, s)

/-! ## Transactions -/

/-- `read` (`isar_impl.dart:314-328`). -/
def read (callback : Isar → Ended) (s : Isar) : Ended :=
  if s.txnPtr.isSome then (false, s)
  else
    match s.obtained (.txnBegin false) with
    | (none, s) => (false, s)
    | (some txn, s) =>
      let (completed, s) := callback { s with txnPtr := some txn, txnWrite := false }
      match s.txnPtr with
      | some txn => (completed, { s.call (.txnAbort txn) with txnPtr := none })
      | none => (false, s)

/-- The commit at the end of `write`, unless the callback has lost the transaction. -/
def commit (s : Isar) : Ended :=
  match s.txnPtr with
  | some txn => s.checked (.txnCommit txn)
  | none => (false, s)

/-- The `catch` of `write`: what is still there is aborted. -/
def abort (s : Isar) : Isar :=
  match s.txnPtr with
  | some txn => s.call (.txnAbort txn)
  | none => s

/-- `write` (`isar_impl.dart:330-352`). -/
def write (callback : Isar → Ended) (s : Isar) : Ended :=
  if s.txnPtr.isSome then (false, s)
  else
    match s.obtained (.txnBegin true) with
    | (none, s) => (false, s)
    | (some txn, s) =>
      let (completed, s) := callback { s with txnPtr := some txn, txnWrite := true }
      let (completed, s) := if completed then s.commit else (false, s)
      let s := if completed then s else s.abort
      (completed, { s with txnPtr := none })

/-- `getTxn` (`isar_impl.dart:272-282`). -/
def getTxn (callback : Pointer → Isar → Ended) (s : Isar) : Ended :=
  match s.txnPtr with
  | some txn => callback txn s
  | none =>
    s.read fun s =>
      match s.txnPtr with
      | some txn => callback txn s
      | none => (false, s)

/-- `getWriteTxn` (`isar_impl.dart:284-305`); the callback gives back a transaction or throws. -/
def getWriteTxn (consume : Bool) (callback : Pointer → Isar → Option Pointer × Isar) (s : Isar) :
    Ended :=
  match s.txnPtr with
  | some txn =>
    if s.txnWrite then
      match callback txn (if consume then { s with txnPtr := none } else s) with
      | (some txn, s) => (true, { s with txnPtr := some txn })
      | (none, s) => (false, s)
    else (false, s)
  | none => (false, s)

/-! ## Collections -/

/-- A read that starts with a call on the transaction; the objects or values that follow may make
code of the user throw. -/
def reading (c : Pointer → FfiCall) (throws : Bool) (txn : Pointer) (s : Isar) : Ended :=
  match s.checked (c txn) with
  | (true, s) => (!throws, s)
  | (false, s) => (false, s)

/-- `getAll` (`isar_collection_impl.dart:35-55`). -/
def getAll (throws : Bool) : Isar → Ended := getTxn (reading .cursor throws)

/-- `count` (`isar_collection_impl.dart:176-186`) ignores an error code. -/
def count : Isar → Ended := getTxn fun txn s => (true, s.call (.count txn))

def getSize : Isar → Ended := getTxn fun txn s => (true, s.call (.getSize txn))

def verify : Isar → Ended := getTxn (reading .verify false)

/-- The loop of `putAll`: each object is written field by field and saved; writing one may throw. -/
def saveAll (insert : Pointer) : List (Nat × Bool) → Isar → Ended
  | [], s => (true, s)
  | (fields, throws) :: objects, s =>
    let s := (List.replicate fields (FfiCall.write insert)).foldl call s
    if throws then (false, s)
    else
      match s.checked (.insertSave insert) with
      | (true, s) => saveAll insert objects s
      | (false, s) => (false, s)

/-- `putAll` (`isar_collection_impl.dart:57-91`). -/
def putAll (objects : List (Nat × Bool)) (s : Isar) : Ended :=
  if objects.isEmpty then (true, s)
  else
    s.getWriteTxn true fun txn s =>
      match s.obtained (.insert txn) with
      | (none, s) => (none, s)
      | (some insert, s) =>
        match saveAll insert objects s with
        | (false, s) => (none, s.call (.insertAbort insert))
        | (true, s) => s.obtained (.insertFinish insert)

/-- The values of an update, in order; `_isarValue` throws for a type it does not know. -/
def addValues (update : Pointer) : List Bool → Isar → Ended
  | [], s => (true, s)
  | throws :: changes, s =>
    if throws then (false, s) else addValues update changes (s.call (.updateAddValue update))

/-- The loop of `updateProperties` over the ids. -/
def updateIds (txn update : Pointer) : List Int64 → Isar → Option Pointer × Isar
  | [], s => (some txn, s)
  | _ :: ids, s =>
    match s.checked (.update txn update) with
    | (true, s) => updateIds txn update ids s
    | (false, s) => (none, s)

/-- `updateProperties` (`isar_collection_impl.dart:93-126`): one update for all ids. -/
def updateProperties (ids : List Int64) (changes : List Bool) (s : Isar) : Ended :=
  if ids.isEmpty then (true, s)
  else
    let (update, s) := (s.call .updateNew).allocate
    match addValues update changes s with
    | (false, s) => (false, s)
    | (true, s) => s.getWriteTxn false fun txn s => updateIds txn update ids s

/-- The loop of `deleteAll` over the ids. -/
def deleteIds (txn : Pointer) : List Int64 → Isar → Option Pointer × Isar
  | [], s => (some txn, s)
  | _ :: ids, s =>
    match s.checked (.delete txn) with
    | (true, s) => deleteIds txn ids s
    | (false, s) => (none, s)

/-- `delete` (`isar_collection_impl.dart:128-143`). -/
def delete (id : Int64) : Isar → Ended := getWriteTxn false fun txn s => deleteIds txn [id] s

/-- `deleteAll` (`isar_collection_impl.dart:145-169`). -/
def deleteAll (ids : List Int64) (s : Isar) : Ended :=
  if ids.isEmpty then (true, s) else s.getWriteTxn false fun txn s => deleteIds txn ids s

/-- `importJsonString` (`isar_collection_impl.dart:198-215`). -/
def importJsonString : Isar → Ended := getWriteTxn true fun txn s => s.obtained (.importJson txn)

/-- `clear` (`isar_collection_impl.dart:217-223`) ignores an error code. -/
def clear : Isar → Ended := getWriteTxn false fun txn s => (some txn, s.call (.clear txn))

/-! ## Queries -/

/-- `_findAll` (`isar_query_impl.dart:30-62`), of a query that may be closed. -/
def findAll (limitIsZero closed throws : Bool) (s : Isar) : Ended :=
  if limitIsZero then (false, s)
  else s.getTxn fun txn s => if closed then (false, s) else s.reading .queryCursor throws txn

/-- `updateProperties` (`isar_query_impl.dart:70-96`): one update for the call. -/
def queryUpdateProperties (limitIsZero closed : Bool) (changes : List Bool) (s : Isar) : Ended :=
  if limitIsZero then (false, s)
  else
    s.getWriteTxn false fun txn s =>
      let (update, s) := (s.call .updateNew).allocate
      match addValues update changes s with
      | (false, s) => (none, s)
      | (true, s) =>
        if closed then (none, s)
        else
          match s.checked (.queryUpdate txn update) with
          | (true, s) => (some txn, s)
          | (false, s) => (none, s)

/-- `deleteAll` (`isar_query_impl.dart:99-117`). -/
def queryDeleteAll (limitIsZero closed : Bool) (s : Isar) : Ended :=
  if limitIsZero then (false, s)
  else
    s.getWriteTxn false fun txn s =>
      if closed then (none, s)
      else
        match s.checked (.queryDelete txn) with
        | (true, s) => (some txn, s)
        | (false, s) => (none, s)

/-- `aggregate` (`isar_query_impl.dart:148-204`). -/
def aggregate (closed throws : Bool) (s : Isar) : Ended :=
  s.getTxn fun txn s => if closed then (false, s) else s.reading .queryAggregate throws txn

end Isar

/-! ## Programs -/

/-- The operations of collections and queries. -/
inductive Operation where
  | getAll (throws : Bool)
  | count
  | getSize
  | verify
  | putAll (objects : List (Nat × Bool))
  | updateProperties (ids : List Int64) (changes : List Bool)
  | delete (id : Int64)
  | deleteAll (ids : List Int64)
  | importJsonString
  | clear
  | findAll (limitIsZero closed throws : Bool)
  | queryUpdateProperties (limitIsZero closed : Bool) (changes : List Bool)
  | queryDeleteAll (limitIsZero closed : Bool)
  | aggregate (closed throws : Bool)
  deriving DecidableEq, Repr

def Operation.perform : Operation → Isar → Ended
  | getAll throws => Isar.getAll throws
  | count => Isar.count
  | getSize => Isar.getSize
  | verify => Isar.verify
  | putAll objects => Isar.putAll objects
  | updateProperties ids changes => Isar.updateProperties ids changes
  | delete id => Isar.delete id
  | deleteAll ids => Isar.deleteAll ids
  | importJsonString => Isar.importJsonString
  | clear => Isar.clear
  | findAll limitIsZero closed throws => Isar.findAll limitIsZero closed throws
  | queryUpdateProperties limitIsZero closed changes =>
    Isar.queryUpdateProperties limitIsZero closed changes
  | queryDeleteAll limitIsZero closed => Isar.queryDeleteAll limitIsZero closed
  | aggregate closed throws => Isar.aggregate closed throws

/-- A program of the user, for the results that its operations give: it goes on in one way if an
operation completes and in another if it throws. -/
inductive Program where
  | completes
  | throws
  | operation (operation : Operation) (next : Bool → Program)
  | read (callback : Program) (next : Bool → Program)
  | write (callback : Program) (next : Bool → Program)

def Program.run : Program → Isar → Ended
  | completes, s => (true, s)
  | throws, s => (false, s)
  | operation called next, s =>
    let (completed, s) := called.perform s
    (next completed).run s
  | read callback next, s =>
    let (completed, s) := s.read callback.run
    (next completed).run s
  | write callback next, s =>
    let (completed, s) := s.write callback.run
    (next completed).run s

end IsarPlus.Dart
