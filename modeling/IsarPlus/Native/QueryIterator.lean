import IsarPlus.Native.CursorIterator
import IsarPlus.Native.Query

/-!
# Iterators of native queries

`isar_core/src/native/query`: the state machines behind the lists of `Native.Query`. A call of `next`
is `none` where the code panics. The loops run on `fuel`.
-/

namespace IsarPlus.Native
open ByteBuffer Scalar Iteration

/-- What a query takes from other libraries: `str::to_lowercase`, `xxh3_64_with_seed`,
`sort_unstable_by`, and the cursors of libmdbx with the one that a transaction has on a primary
database. -/
structure QueryLibraries (σ : Type) where
  toLowercase : List Char → List Char
  xxh3_64_with_seed : Bytes → UInt64 → UInt64
  sortUnstableBy : (QueryObject → QueryObject → Ordering) → List QueryObject → List QueryObject
  opGet : CursorOp → Option Bytes → σ → Result (Option KeyVal) × σ
  bind : Db → σ

/-- `QueryIndex` (`query/mod.rs:24-28`). -/
inductive QueryIndex where
  | primary (start stop : Int64)
  | secondary (start stop : IndexKey)
  deriving DecidableEq, Repr

/-- The only index that a query is built with (`native_query_builder.rs:64`). -/
def NativeQuery.indexes (_ : NativeQuery) : List QueryIndex :=
  [.primary Int64.minValue Int64.maxValue]

variable {σ : Type} (libs : QueryLibraries σ)

/-! ## Indexes -/

/-- `IndexIterator` (`index_iterator.rs:8-16`). The indexes are left in their order, which the source
reverses to pop them. A secondary index is a `todo!()`, so that there is never a primary cursor
beside the iterator. -/
structure IndexIterator (σ : Type) where
  iterator : Option (CursorIterator σ)
  indexes : List QueryIndex

namespace IndexIterator

/-- `next_iterator` (`index_iterator.rs:47-67`) on the next index: `some none` where it returns
`None`. -/
def nextIterator (c : NativeCollection) (primaryCursor : Option σ) :
    QueryIndex → Option (Option (CursorIterator σ))
  | .primary start stop =>
    match primaryCursor.or (c.db.map libs.bind) with
    | some cursor =>
      match TxnCursor.iterBetweenIds libs.opGet cursor start stop false false with
      | .ok iterator => some (some iterator)
      | .error .panic => none
      | .error (.error _) => some none
    | none => some none
  | .secondary _ _ => none

/-- `IndexIterator::new` (`index_iterator.rs:19-45`). -/
def new (c : NativeCollection) : List QueryIndex → Option (IndexIterator σ)
  | [] => some { iterator := none, indexes := [] }
  | index :: indexes => (nextIterator libs c none index).map fun iterator => { iterator, indexes }

/-- The object of an entry. -/
def readEntry (entry : KeyVal) : Option QueryObject := do
  let id ← toId entry.1
  let object ← IsarDeserializer.fromBytes entry.2
  pure (id, object)

/-- `Iterator::next` (`index_iterator.rs:74-95`) with an iterator: the next object in its range, or
else in those of the other indexes. -/
def nextFrom (c : NativeCollection) (iterator : CursorIterator σ) (indexes : List QueryIndex) :
    Option (Option QueryObject × IndexIterator σ) :=
  match iterator.nextEntry libs.opGet with
  | none => none
  | some (some entry, iterator) =>
    (readEntry entry).map fun object => (some object, { iterator := some iterator, indexes })
  | some (none, iterator) =>
    match indexes with
    | [] => some (none, { iterator := none, indexes := [] })
    | index :: indexes =>
      match nextIterator libs c (some iterator.cursor) index with
      | none => none
      | some none => some (none, { iterator := none, indexes })
      | some (some iterator) => nextFrom c iterator indexes

def next (c : NativeCollection) (it : IndexIterator σ) :
    Option (Option QueryObject × IndexIterator σ) :=
  match it.iterator with
  | some iterator => nextFrom libs c iterator it.indexes
  | none => some (none, it)

end IndexIterator

/-! ## Unsorted queries -/

/-- `UnsortedQueryIterator` (`unsorted_query_iterator.rs:5-11`) without the ids that have been
returned: no query is built with duplicates. -/
abbrev UnsortedQueryIterator (σ : Type) := Windowed (IndexIterator σ) Unit

/-- The check of `UnsortedQueryIterator::next` (`unsorted_query_iterator.rs:47`). -/
def UnsortedQueryIterator.accept (filter : NativeFilter) (seen : Unit) (o : QueryObject) :
    Option (Bool × Unit) :=
  (filter.evaluate libs.toLowercase o.1 o.2).map fun isMatch => (isMatch, seen)

/-- `UnsortedDistinctQueryIterator` (`unsorted_distinct_query_iterator.rs:7-14`) with the hashes that
have been returned. -/
abbrev UnsortedDistinctQueryIterator (σ : Type) := Windowed (IndexIterator σ) (List UInt64)

local instance lawfulBEqUInt64 : LawfulBEq UInt64 := inferInstance

/-- The checks of `UnsortedDistinctQueryIterator::next` (`unsorted_distinct_query_iterator.rs:41-53`).
-/
def UnsortedDistinctQueryIterator.accept (filter : NativeFilter)
    (distinct : List (NativeProperty × Bool)) (hashes : List UInt64) (o : QueryObject) :
    Option (Bool × List UInt64) := do
  if ← filter.evaluate libs.toLowercase o.1 o.2 then
    let hash ← o.2.hashProperties libs.toLowercase libs.xxh3_64_with_seed distinct
    pure (if hash ∈ hashes then (false, hashes) else (true, hash :: hashes))
  else pure (false, hashes)

/-! ## Queries -/

/-- `QueryIterator` (`query_iterator.rs:10-14`). What is sorted is a list already. -/
inductive QueryIterator (σ : Type) where
  | unsorted (it : UnsortedQueryIterator σ)
  | unsortedDistinct (it : UnsortedDistinctQueryIterator σ)
  | sorted (objects : List QueryObject)

/-- `SortedQueryIterator::new` (`sorted_query_iterator.rs:18-92`). -/
def sortedQueryIterator (fuel : Nat) (query : NativeQuery) (c : NativeCollection)
    (it : IndexIterator σ) (offset limit : UInt32) : Option (QueryIterator σ) := do
  let objects ← collect (IndexIterator.next libs c) fuel it
  let results ← query.filter.matching libs.toLowercase objects
  let results ← sortObjects libs.toLowercase libs.sortUnstableBy query.sort results
  let results ← if !query.distinct.isEmpty then
      distinctObjects libs.toLowercase libs.xxh3_64_with_seed query.distinct [] results
    else some results
  pure (.sorted ((results.drop offset.toNat).take limit.toNat))

namespace QueryIterator

/-- `QueryIterator::new` (`query_iterator.rs:17-53`). -/
def new (fuel : Nat) (query : NativeQuery) (c : NativeCollection) (ignoreSort : Bool)
    (offset limit : UInt32) : Option (QueryIterator σ) := do
  let it ← IndexIterator.new libs c query.indexes
  if !query.sort.isEmpty && !ignoreSort then
    sortedQueryIterator libs fuel query c it offset limit
  else if !query.distinct.isEmpty then
    pure (.unsortedDistinct { source := it, seen := [], skip := offset.toNat, take := limit.toNat })
  else pure (.unsorted { source := it, seen := (), skip := offset.toNat, take := limit.toNat })

/-- `Iterator::next` (`query_iterator.rs:60-66`). -/
def next (fuel : Nat) (query : NativeQuery) (c : NativeCollection) :
    QueryIterator σ → Option (Option QueryObject × QueryIterator σ)
  | .unsorted it =>
    (it.nextElement (IndexIterator.next libs c) (UnsortedQueryIterator.accept libs query.filter)
      fuel).map fun (object, it) => (object, .unsorted it)
  | .unsortedDistinct it =>
    (it.nextElement (IndexIterator.next libs c)
      (UnsortedDistinctQueryIterator.accept libs query.filter query.distinct) fuel).map
        fun (object, it) => (object, .unsortedDistinct it)
  | .sorted objects => (listNext objects).map fun (object, objects) => (object, .sorted objects)

end QueryIterator

namespace NativeQuery

variable (fuel : Nat) (query : NativeQuery) (c : NativeCollection)

/-- `cursor` (`query/mod.rs:59-76`) with the iterator that the cursor reads its objects from. -/
def cursor (offset limit : Option UInt32) : Option (QueryIterator σ) :=
  QueryIterator.new libs fuel query c false (offset.getD 0) (limit.getD 0xffffffff)

/-- `get_matching_ids` (`query/mod.rs:105-121`). -/
def getMatchingIds (offset limit : Option UInt32) : Option (List Int64) := do
  let it ← QueryIterator.new libs fuel query c false (offset.getD 0) (limit.getD 0xffffffff)
  let objects ← collect (QueryIterator.next libs fuel query c) fuel it
  pure (objects.map Prod.fst)

/-- `Aggregation::Count` in `aggregate` (`query/mod.rs:92-100`). -/
def count : Option IsarValue := do
  let it ← QueryIterator.new libs fuel query c true 0 0xffffffff
  let objects ← collect (QueryIterator.next libs fuel query c) fuel it
  pure (.integer (Int64.ofNat objects.length))

/-- `Aggregation::IsEmpty` in `aggregate` (`query/mod.rs:92-101`). -/
def isEmpty : Option IsarValue := do
  let it ← QueryIterator.new libs fuel query c true 0 0xffffffff
  let (object, _) ← QueryIterator.next libs fuel query c it
  pure (.bool object.isNone)

end NativeQuery

/-! ## Contents -/

/-- The collection has the object under the id. -/
def NativeTxn.HasObject (txn : NativeTxn) (c : NativeCollection) (o : QueryObject) : Prop :=
  ∃ db bytes, c.db = some db ∧ txn.get db o.1 = some bytes ∧
    IsarDeserializer.fromBytes bytes = some o.2

/-- The cursors of a query are those of a store with the databases of the transaction. -/
def QueryLibraries.Lawful (txn : NativeTxn) (c : NativeCollection) : Prop :=
  ∀ db, c.db = some db → ∃ At : σ → SortedCursor.Position KeyVal → Prop,
    (primaryDb (txn.primary db)).Lawful libs.opGet At

end IsarPlus.Native
