import IsarPlus.Native.Evolution
import IsarPlus.Native.StoredValues

/-!
# Updates of stored objects

What an update of a stored object is to do: the properties that it names read as the new values, and
all others as before, however old the object is.
-/

namespace IsarPlus.Native
open Sqlite (Written)

/-- The static section of an object has the slots of all properties of the collection. -/
def NativeCollection.HasSlots (c : NativeCollection) (object : Bytes) : Prop :=
  ∃ d, IsarDeserializer.fromBytes object = some d ∧ c.staticSize ≤ d.staticSize

/-- An object can be opened with the slots of the collection: it has all of them, or it ends with its
static section, and what has its slot behind that is updated or null where it is zero. -/
def NativeCollection.Reopens (c : NativeCollection) (object : Bytes)
    (updates : List (UInt16 × Option IsarValue)) : Prop :=
  c.HasSlots object ∨ ∃ d, IsarDeserializer.fromBytes object = some d ∧
    object.length = 3 + d.staticSize ∧ ∀ i q, c.getProperty i = some q → d.staticSize ≤ q.offset →
      lastUpdate updates i = none → zeroValue q.dataType = .null

/-- What becomes of an object that a collection has written: the database goes through steps in
which the collection stays stored, and the versions of the collection update the object, each time
under a condition. -/
inductive Life (xxh3_64 : Bytes → UInt64)
    (condition : NativeCollection → Bytes → List (UInt16 × Option IsarValue) → Prop)
    (before : Database) (old : NativeCollection) : List (Event × Database) → Database → Bytes → Prop
  | written {count : Nat} {writes : List (UInt32 × Written)} {insert : NativeInsert}
      (typed : TypedAll before.collections (.object old) writes)
      (nodup : (writes.map Prod.fst).Nodup)
      (written : old.writeObject before.collections count writes = some insert) :
      Life xxh3_64 condition before old [] before insert.object.finish
  | step {passed : List (Event × Database)} {d d' : Database} {event : Event} {object : Bytes}
      (life : Life xxh3_64 condition before old passed d object)
      (one : Database.Step xxh3_64 d event d') (stays : (d'.storage.info.find old.name).isSome) :
      Life xxh3_64 condition before old (passed ++ [(event, d')]) d' object
  | update {passed : List (Event × Database)} {d : Database} {c : NativeCollection}
      {object object' : Bytes} {updates : List (UInt16 × Option IsarValue)}
      (life : Life xxh3_64 condition before old passed d object) (mem : c ∈ d.collections)
      (name : c.name = old.name) (met : condition c object updates)
      (updated : c.updateObject object updates = .ok object') :
      Life xxh3_64 condition before old passed d object'

/-- An index that was not kept since the object was written reads as its last update, and without one
as it did before. It is absent where the object has no slot for it. -/
structure ReadsAdded (all : List NativeCollection) (updates : List (UInt16 × Option IsarValue))
    (r r' : Reader) (index : UInt32) : Prop where
  absent : ∀ q, r.getProperty index = some q → r.deserializer.containsOffset q.offset = false →
    r.Absent all index
  unnamed : lastUpdate updates index.toUInt16 = none → ∃ q v, r.getProperty index = some q ∧
    r.ReadsBack all index q.dataType v ∧ r'.ReadsBack all index q.dataType v
  named : ∀ value, lastUpdate updates index.toUInt16 = some value → ∃ q v,
    r.getProperty index = some q ∧ updatedValue q.dataType value = some v ∧
    r'.ReadsBack all index q.dataType v

/-- An index of a property that was kept had a value, and has the one that the updates leave of it.
Both are whole: all properties of the objects in them have values. -/
def ReadsUpdated (kept : String → String → Prop) (before after : List NativeCollection)
    (updates : List (UInt16 × Option IsarValue)) (p : NativeProperty) (r r' : Reader)
    (index : UInt32) : Prop :=
  ∃ v v', Whole before p v ∧ Whole before p v' ∧ StillReads kept before after r index p v ∧
    StillReads kept before after r' index p v' ∧
    Updated updates index.toUInt16 p.dataType v v'

/-- An update has changed the properties that it names, and no other. -/
structure UpdatesOnly (before after : Database) (passed : List (Event × Database))
    (old c : NativeCollection) (updates : List (UInt16 × Option IsarValue)) (r r' : Reader) :
    Prop where
  kept : ∀ index name, c.Knows index name → Kept before passed old.name name →
    ∃ p, (name, p) ∈ old.properties ∧
      ReadsUpdated (Kept before passed) before.collections after.collections updates p r r' index
  added : ∀ index name, c.Knows index name → ¬ Kept before passed old.name name →
    ReadsAdded after.collections updates r r' index

/-- A transaction updates a stored object. -/
def UpdatesStored (xxh3_64 : Bytes → UInt64) (before after : Database)
    (passed : List (Event × Database)) (old c : NativeCollection) (txn : NativeTxn) (id : Int64)
    (updates : List (UInt16 × Option IsarValue)) (object : Bytes) : Prop :=
  ∀ txn' found, c.update xxh3_64 txn id updates = .ok (txn', found) → found = true ∧
    ∃ object' r r', c.objects txn' id = some object' ∧ c.reader id object = some r ∧
      c.reader id object' = some r' ∧ UpdatesOnly before after passed old c updates r r'

/-! ## Repeated updates -/

/-- The extent of a stored object. -/
def NativeCollection.extent (c : NativeCollection) (object : Bytes) : Extent where
  length := object.length
  texts i := ((c.reader 0 object).bind fun r => r.readString i.toUInt32).bind fun text =>
    text.map List.length

/-- The texts that are appended one after the other fit behind the object. -/
def NativeCollection.HasRoom (c : NativeCollection) (object : Bytes)
    (updates : List (UInt16 × Option IsarValue)) : Prop :=
  (updates.foldlM Extent.update (c.extent object)).isSome

/-- Updates of properties that the collection has, with values of their types. -/
def NativeCollection.TypedUpdates (c : NativeCollection)
    (updates : List (UInt16 × Option IsarValue)) : Prop :=
  ∀ u ∈ updates, ∃ q v, c.getProperty u.1 = some q ∧ updatedValue q.dataType u.2 = some v

/-- One call of `update` after the other. -/
def NativeCollection.updateAll (xxh3_64 : Bytes → UInt64) (c : NativeCollection) (txn : NativeTxn)
    (id : Int64) (calls : List (List (UInt16 × Option IsarValue))) : Result NativeTxn :=
  calls.foldlM (fun txn updates => (c.update xxh3_64 txn id updates).map Prod.fst) txn

/-- All calls succeed, the object reads as they leave it, and it has grown at most to a fixed size. -/
def Sustains (xxh3_64 : Bytes → UInt64) (before after : Database)
    (passed : List (Event × Database)) (old c : NativeCollection) (txn : NativeTxn) (id : Int64)
    (calls : List (List (UInt16 × Option IsarValue))) (object : Bytes) : Prop :=
  ∃ txn' object' r r', c.updateAll xxh3_64 txn id calls = .ok txn' ∧
    c.objects txn' id = some object' ∧ c.reader id object = some r ∧
    c.reader id object' = some r' ∧ UpdatesOnly before after passed old c calls.flatten r r' ∧
    object'.length ≤ max object.length (2 ^ 25 + 4)

end IsarPlus.Native
