import IsarPlus.Lib.Run
import IsarPlus.Native.Instance
import IsarPlus.Native.SchemaManager

/-!
# Auto increment

The counter of a native collection (`isar_core/src/native/native_collection.rs:81-98`) beside the
objects that are stored. Every isolate may take a number at any time, also while the put of another
isolate has raised the counter and not yet stored its object. A transaction that is dropped does
not lower the counter.
-/

namespace IsarPlus.Native
open ByteBuffer OrderedStore

/-- An object is stored under the id. -/
def Stored (objects : SortedMap UInt64 Bytes) (id : Int64) : Prop :=
  (objects.find (idKey id)).isSome = true

instance (objects : SortedMap UInt64 Bytes) (id : Int64) : Decidable (Stored objects id) :=
  inferInstanceAs (Decidable (_ = true))

namespace AutoIncrement

/-- A write transaction: the objects as it sees them, and the id of the put that has raised the
counter and not yet stored its object. -/
structure Writing where
  objects : SortedMap UInt64 Bytes
  raised : Option Int64

/-- An open database: the counter, and the ids that were handed out since the opening. -/
structure Session where
  counter : Int64
  returned : List Int64
  writing : Option Writing

structure State where
  committed : SortedMap UInt64 Bytes
  session : Option Session

inductive Action where
  | openInstance
  | closeInstance
  | autoIncrement
  | begin
  | raise (id : Int64)
  | store (bytes : Bytes)
  | delete (id : Int64)
  | clear
  | commit
  | abort

/-- What an action does to an open database; `none` where it cannot happen. -/
def Session.step (committed : SortedMap UInt64 Bytes) (session : Session) :
    Action → Option State
  -- the instance is found among those that are open
  | .openInstance => some ⟨committed, some session⟩
  | .closeInstance => some ⟨committed, none⟩
  | .autoIncrement => some ⟨committed, some { session with
      counter := session.counter + 1, returned := session.counter :: session.returned }⟩
  | .begin => match session.writing with
    | none => some ⟨committed, some { session with writing := some ⟨committed, none⟩ }⟩
    | some _ => none
  | .raise id => session.writing.map fun writing => ⟨committed, some { session with
      counter := max session.counter (id + 1), writing := some { writing with raised := some id } }⟩
  | .store bytes => do
    let writing ← session.writing
    let id ← writing.raised
    pure ⟨committed, some { session with
      writing := some ⟨writing.objects.insert (idKey id) bytes, none⟩ }⟩
  | .delete id => session.writing.map fun writing => ⟨committed, some { session with
      writing := some ⟨writing.objects.erase (idKey id), none⟩ }⟩
  | .clear => session.writing.map fun _ => ⟨committed, some { session with
      writing := some ⟨.empty, none⟩ }⟩
  | .commit => session.writing.map fun writing =>
    ⟨writing.objects, some { session with writing := none }⟩
  | .abort => session.writing.map fun _ => ⟨committed, some { session with writing := none }⟩

/-- One action; a closed database can only be opened, which reads the counter from the last key. -/
def step (s : State) (action : Action) : Option State :=
  match s.session with
  | some session => session.step s.committed action
  | none => match action with
    | .openInstance => some ⟨s.committed, some ⟨initAutoIncrement s.committed, [], none⟩⟩
    | _ => none

def Step (s : State) (action : Action) (s' : State) : Prop := step s action = some s'

/-- An object is stored under the id, or is in the transaction in progress. -/
def Session.Taken (committed : SortedMap UInt64 Bytes) (session : Session) (id : Int64) : Prop :=
  Stored committed id ∨ ∃ writing, session.writing = some writing ∧ Stored writing.objects id

/-- The counter does not wrap: it starts above every id, and never falls. -/
def Grows (s s' : State) : Prop :=
  match s.session, s'.session with
  | some session, some session' => session.counter ≤ session'.counter
  | none, some session' => ∀ id, Stored s.committed id → id < session'.counter
  | _, none => True

/-- What is promised of a step: an id that it hands out is not in use, was not handed out before
and is not the null of ids, and the counter does not wrap. -/
def Promised (s : State) (action : Action) (s' : State) : Prop :=
  (action = .autoIncrement → ∀ session, s.session = some session →
    ¬ session.Taken s.committed session.counter ∧ session.counter ∉ session.returned ∧
    session.counter ≠ nullLong) ∧
  Grows s s'

/-- No step takes the counter past the greatest id: none is taken from a counter that is the
greatest id, and no database with an object of that id is opened. -/
def BelowGreatest (s : State) : Action → Prop
  | .autoIncrement => ∀ session, s.session = some session → session.counter ≠ Int64.maxValue
  | .openInstance => s.session = none → ¬ Stored s.committed Int64.maxValue
  | _ => True

/-- The state of a transaction of a collection with the database of its objects. -/
def State.ofTxn (committed : SortedMap UInt64 Bytes) (returned : List Int64) (c : NativeCollection)
    (db : Db) (txn : NativeTxn) : State :=
  ⟨committed, some ⟨txn.autoIncrement c.name, returned, some ⟨txn.primary db, none⟩⟩⟩

end AutoIncrement

end IsarPlus.Native
