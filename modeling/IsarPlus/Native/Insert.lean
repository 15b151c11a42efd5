import IsarPlus.Native.Instance
import IsarPlus.Native.Proofs.IndexConsistency
import IsarPlus.Native.ReadBack

/-!
# Inserts

An object that is written field by field on a `NativeInsert` and saved: what its bytes are to be,
and what the limit of its size promises.
-/

namespace IsarPlus.Native
open ByteBuffer OrderedStore
open Sqlite (Written)

namespace NativeCollection

section
variable (all : List NativeCollection)

/-- The fields of an object, written on an insert with `count` objects to come; a save leaves the
insert with a serializer as a new one has. -/
def writeObject (c : NativeCollection) (count : Nat) (writes : List (UInt32 × Written)) :
    Option NativeInsert := do
  let insert ← c.newInsert count
  let object ← (WriterImpl.object c).writeAll all insert.object writes
  pure { insert with object }

/-- The size of an object with its header. -/
def objectSize (c : NativeCollection) (writes : List (UInt32 × Written)) : Nat :=
  3 + c.staticSize + dynamicSizeAll all (.object c) writes

/-- What can be written field by field: every value is of its property's type, no property is written
twice, and the whole object can be counted in `u32`. Past 2^32 bytes `buffer.len() as u32` wraps, and
`resize` cuts the buffer. -/
structure Writable (c : NativeCollection) (writes : List (UInt32 × Written)) : Prop where
  typed : TypedAll all (.object c) writes
  nodup : (writes.map Prod.fst).Nodup
  counted : c.objectSize all writes < 2 ^ 32

/-- The static size, and all offsets and lengths of an object, fit three bytes. -/
def ObjectFits (c : NativeCollection) (writes : List (UInt32 × Written)) : Prop :=
  Fits24 c.staticSize ∧ FitsAll all 3 (3 + c.staticSize) (.object c) writes

/-- The bytes of a whole object. -/
structure Encodes (c : NativeCollection) (writes : List (UInt32 × Written)) (object : Bytes) :
    Prop where
  header : At object 0 (leBytes 3 c.staticSize)
  length : object.length = c.objectSize all writes
  holds : HoldsAll all object 3 (3 + c.staticSize) (.object c) writes
  zero : ∀ index p, index ∉ writes.map Prod.fst →
    (WriterImpl.object c).property index = some p →
      At object (3 + p.offset) (List.replicate p.dataType.staticSize 0)

/-- The reader of a stored object (`native_reader.rs:20-34`). -/
def reader (c : NativeCollection) (id : Int64) (object : Bytes) : Option Reader :=
  (IsarDeserializer.fromBytes object).map fun d => .object id d c

/-- An object reads back as it was written, and none of its reads leaves the buffer. -/
def Restores (c : NativeCollection) (id : Int64) (object : Bytes)
    (writes : List (UInt32 × Written)) : Prop :=
  ∃ r, c.reader id object = some r ∧ r.readId = id ∧ r.ReadsAll all writes ∧
    ∀ index, r.Safe all index

variable (xxh3_64 : Bytes → UInt64)

/-- The transactions in which every object of the collection was written field by field. -/
inductive Filled (c : NativeCollection) : NativeTxn → Prop
  | empty {txn : NativeTxn} (empty : c.Empty txn) : Filled c txn
  | save {txn txn' : NativeTxn} {count : Nat} {id : Int64} {writes : List (UInt32 × Written)}
      {insert insert' : NativeInsert} (filled : Filled c txn) (writable : c.Writable all writes)
      (written : c.writeObject all count writes = some insert)
      (saved : c.save xxh3_64 txn insert id = .ok (txn', insert')) : Filled c txn'
  | delete {txn txn' : NativeTxn} {id : Int64} {found : Bool} (filled : Filled c txn)
      (deleted : c.delete xxh3_64 txn id = .ok (txn', found)) : Filled c txn'
  | clear {txn txn' : NativeTxn} (filled : Filled c txn)
      (cleared : c.clear xxh3_64 txn = .ok txn') : Filled c txn'

/-- The limit of the size is enforced: an object within it is written without a panic, all its slots
hold what they should, and it is stored as it was written; a larger one is refused. -/
structure LimitEnforced (c : NativeCollection) (txn : NativeTxn) (id : Int64) (count : Nat)
    (writes : List (UInt32 × Written)) : Prop where
  accepted : c.objectSize all writes ≤ maxObjSize → (c.writeObject all count writes).isSome
  slots : ∀ insert, c.writeObject all count writes = some insert →
    c.Encodes all writes insert.object.finish
  stored : ∀ insert, c.writeObject all count writes = some insert →
    insert.object.finish.length ≤ maxObjSize → ∃ txn' insert',
      c.save xxh3_64 txn insert id = .ok (txn', insert') ∧
      c.objects txn' id = some insert.object.finish ∧
      c.Restores all id insert.object.finish writes
  refused : ∀ insert, c.writeObject all count writes = some insert →
    maxObjSize < insert.object.finish.length →
      c.save xxh3_64 txn insert id = fail .objectLimitReached

end

end NativeCollection

end IsarPlus.Native
