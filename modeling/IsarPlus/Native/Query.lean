import IsarPlus.Native.QueryBuilder
import IsarPlus.Native.SchemaManager

/-!
# Native queries

`isar_core/src/native/query`: the iterators of a query as lists of their objects. The only index
that a query is built with is the range of all ids. `toLowercase` is `str::to_lowercase`,
`xxh3_64_with_seed` the hash and `sortUnstableBy` the unstable sort of the libraries. A result is
`none` where a read panics.
-/

namespace IsarPlus.Native
open ByteBuffer Scalar

/-- `Sort` (`core/query_builder.rs:3-7`). -/
inductive SortOrder where
  | asc | desc
  deriving DecidableEq, Repr

/-- `NativeQuery` (`query/mod.rs:31-39`) without the instance, the collection and the range of all
ids. -/
structure NativeQuery where
  filter : NativeFilter
  sort : List (Option NativeProperty × SortOrder × Bool)
  distinct : List (NativeProperty × Bool)

/-- An object with its id. -/
abbrev QueryObject := Int64 × IsarDeserializer

/-- `IndexIterator` over all ids: the objects of the collection in the order of their ids. An
embedded collection has no cursor, and its iterator no objects. -/
def NativeTxn.objects (txn : NativeTxn) (c : NativeCollection) : Option (List QueryObject) :=
  match c.db with
  | some db => (txn.primary db).entries.mapM fun e =>
      (IsarDeserializer.fromBytes e.2).map fun object => (idOfKey e.1, object)
  | none => some []

section
variable (toLowercase : List Char → List Char) (xxh3_64_with_seed : Bytes → UInt64 → UInt64)

/-- The objects that the filter of an iterator lets through. -/
def NativeFilter.matching (filter : NativeFilter) : List QueryObject → Option (List QueryObject)
  | [] => some []
  | (id, object) :: objects => do
    let isMatch ← filter.evaluate toLowercase id object
    let rest ← filter.matching objects
    pure (if isMatch then (id, object) :: rest else rest)

/-! ## Distinct objects -/

/-- `hash_property` (`isar_deserializer.rs:142-198`). -/
def IsarDeserializer.hashProperty (object : IsarDeserializer) (p : NativeProperty)
    (caseSensitive : Bool) (seed : UInt64) : Option UInt64 :=
  match p.dataType with
  | .bool => (object.readBool p.offset).map fun v =>
      match v with
      | some value => xxh3_64_with_seed [if value then 1 else 0] seed
      | none => xxh3_64_with_seed [255] seed
  | .byte => (object.readByte p.offset).map fun v => xxh3_64_with_seed [v] seed
  | .int => (object.readInt p.offset).map fun v => xxh3_64_with_seed (i32Le v) seed
  | .float => (object.readFloat p.offset).map fun v =>
      if v.isNan then xxh3_64_with_seed [1, 0, 128, 127] seed
      else xxh3_64_with_seed (f32Le v) seed
  | .long => (object.readLong p.offset).map fun v => xxh3_64_with_seed (i64Le v) seed
  | .double => (object.readDouble p.offset).map fun v =>
      if v.isNan then xxh3_64_with_seed [0, 0, 0, 0, 0, 0, 248, 127] seed
      else xxh3_64_with_seed (f64Le v) seed
  | .string => do
    match ← object.readString p.offset with
    | some bytes =>
      let bytes ← comparedBytes toLowercase bytes caseSensitive
      pure (xxh3_64_with_seed bytes (xxh3_64_with_seed [1] seed))
    | none => pure (xxh3_64_with_seed [0] seed)
  | _ => some seed

/-- The hash of all distinct properties. -/
def IsarDeserializer.hashProperties (object : IsarDeserializer)
    (distinct : List (NativeProperty × Bool)) : Option UInt64 :=
  distinct.foldlM (fun hash p => object.hashProperty toLowercase xxh3_64_with_seed p.1 p.2 hash) 0

/-- The objects whose hash has not been seen before. -/
def distinctObjects (distinct : List (NativeProperty × Bool)) :
    List UInt64 → List QueryObject → Option (List QueryObject)
  | _, [] => some []
  | hashes, (id, object) :: objects => do
    let hash ← object.hashProperties toLowercase xxh3_64_with_seed distinct
    if hash ∈ hashes then distinctObjects distinct hashes objects
    else
      let rest ← distinctObjects distinct (hash :: hashes) objects
      pure ((id, object) :: rest)

/-! ## Sorted objects -/

/-- The order of options, where `None` is the smallest. -/
def optionCmp {α : Type} (compare : α → α → Ordering) : Option α → Option α → Ordering
  | none, none => .eq
  | none, some _ => .lt
  | some _, none => .gt
  | some a, some b => compare a b

/-- `compare_property` (`sorted_query_iterator.rs:97-126`). -/
def compareProperty (a b : IsarDeserializer) (p : NativeProperty) (caseSensitive : Bool) :
    Option Ordering :=
  let both {α : Type} (read : IsarDeserializer → Option α) (compare : α → α → Ordering) :
      Option Ordering := do
    let first ← read a
    let second ← read b
    pure (compare first second)
  match p.dataType with
  | .bool => both (·.readBool p.offset) (optionCmp cmp)
  | .byte => both (·.readByte p.offset) cmp
  | .int => both (·.readInt p.offset) fun v w => cmp v.toInt w.toInt
  | .float => both (·.readFloat p.offset) fun v w => cmp v.total w.total
  | .long => both (·.readLong p.offset) fun v w => cmp v.toInt w.toInt
  | .double => both (·.readDouble p.offset) fun v w => cmp v.total w.total
  | .string => both (fun object => do
      match ← object.readString p.offset with
      | some bytes => (comparedBytes toLowercase bytes caseSensitive).map some
      | none => pure none) (optionCmp cmp)
  | _ => some .eq

/-- The comparison of the sort (`sorted_query_iterator.rs:48-64`). -/
def compareObjects (a b : QueryObject) :
    List (Option NativeProperty × SortOrder × Bool) → Option Ordering
  | [] => some .eq
  | (property, order, caseSensitive) :: sort => do
    let ord ← match property with
      | some p => compareProperty toLowercase a.2 b.2 p caseSensitive
      | none => some (cmp a.1.toInt b.1.toInt)
    if ord ≠ .eq then pure (if order = .asc then ord else ord.swap)
    else compareObjects a b sort

variable (sortUnstableBy : (QueryObject → QueryObject → Ordering) → List QueryObject →
  List QueryObject)

/-- The sorted objects; the sort compares objects in no fixed order. -/
def sortObjects (sort : List (Option NativeProperty × SortOrder × Bool))
    (objects : List QueryObject) : Option (List QueryObject) :=
  if ∀ a ∈ objects, ∀ b ∈ objects, (compareObjects toLowercase a b sort).isSome then
    some (sortUnstableBy (fun a b => (compareObjects toLowercase a b sort).getD .eq) objects)
  else none

/-! ## Iterators -/

/-- `QueryIterator::new` (`query_iterator.rs:17-56`) with all that it yields. -/
def NativeQuery.results (query : NativeQuery) (txn : NativeTxn) (c : NativeCollection)
    (ignoreSort : Bool) (offset limit : UInt32) : Option (List QueryObject) := do
  let objects ← txn.objects c
  let objects ← query.filter.matching toLowercase objects
  let objects ← if !query.sort.isEmpty && !ignoreSort then
      sortObjects toLowercase sortUnstableBy query.sort objects
    else pure objects
  let objects ← if !query.distinct.isEmpty then
      distinctObjects toLowercase xxh3_64_with_seed query.distinct [] objects
    else pure objects
  pure ((objects.drop offset.toNat).take limit.toNat)

end

/-! ## Building queries -/

/-- `NativeQueryBuilder` (`native_query_builder.rs:10-17`) without the instance and the
collections. -/
structure NativeQueryBuilder where
  filter : Option Filter
  sort : List (Option NativeProperty × SortOrder × Bool)
  distinct : List (NativeProperty × Bool)

namespace NativeQueryBuilder

def new : NativeQueryBuilder := { filter := none, sort := [], distinct := [] }

def setFilter (b : NativeQueryBuilder) (filter : Filter) : NativeQueryBuilder :=
  { b with filter := some filter }

def addSort (b : NativeQueryBuilder) (c : NativeCollection) (propertyIndex : UInt16)
    (sort : SortOrder) (caseSensitive : Bool) : NativeQueryBuilder :=
  { b with sort := b.sort ++ [(c.getProperty propertyIndex, sort, caseSensitive)] }

/-- `add_distinct` (`native_query_builder.rs:49-54`): distinct ids are dropped, as there are no
others. -/
def addDistinct (b : NativeQueryBuilder) (c : NativeCollection) (propertyIndex : UInt16)
    (caseSensitive : Bool) : NativeQueryBuilder :=
  match c.getProperty propertyIndex with
  | some p => { b with distinct := b.distinct ++ [(p, caseSensitive)] }
  | none => b

/-- `build` (`native_query_builder.rs:56-71`). -/
def build (b : NativeQueryBuilder) (toLowercase : List Char → List Char) (c : NativeCollection)
    (all : List NativeCollection) : Option NativeQuery :=
  match b.filter with
  | some filter => (filterToNative toLowercase c all filter).map fun filter =>
      { filter, sort := b.sort, distinct := b.distinct }
  | none => some { filter := .stat true, sort := b.sort, distinct := b.distinct }

end NativeQueryBuilder

end IsarPlus.Native
