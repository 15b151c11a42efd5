import IsarPlus.Native.Proofs.Runs
import Mathlib

/-!
# Index consistency

After every operation the entries of each index are exactly those of the stored objects. That a
unique index binds a key free of nulls to one id is not preserved by every put: the encodings of
null and of the string `"\u{0}"` coincide (`index_key.rs:93-104`), so that a unique lookup finds
objects with null under the key of a string. `OneHolder` is what a put has to find for the binding
to stay unique.
-/

namespace IsarPlus.Native.NativeCollection
open ByteBuffer OrderedStore SecondaryIndex

variable {xxh3_64 : Bytes → UInt64}

/-- The collection has no objects and no entries. -/
structure Empty (c : NativeCollection) (txn : NativeTxn) : Prop where
  objects : ∀ id, c.objects txn id = none
  entries : ∀ index ∈ c.indexes, txn.index index.db = .empty

theorem Empty.indexedBy {c : NativeCollection} {txn : NativeTxn} (empty : c.Empty txn) :
    Consistent xxh3_64 c txn := by
  intro index mem
  have none_stored : c.objects txn = fun _ => none := funext empty.objects
  simp only [none_stored, empty.entries index mem]
  exact Exact.empty

/-! ## Entries and objects -/

theorem delete_consistent {c : NativeCollection} {txn txn' : NativeTxn} {id : Int64} {found : Bool}
    (nodup : (c.indexes.map NativeIndex.db).Nodup) (consistent : Consistent xxh3_64 c txn)
    (h : c.delete xxh3_64 txn id = .ok (txn', found)) :
    Consistent xxh3_64 c txn' ∧ c.objects txn' = Function.update (c.objects txn) id none := by
  obtain ⟨-, objects, indexed⟩ := delete_spec nodup (fun _ => rfl) consistent h
  refine ⟨?_, objects⟩
  intro index mem
  simp only [objects]
  exact indexed index mem

theorem clear_consistent {c : NativeCollection} {txn txn' : NativeTxn}
    (h : c.clear xxh3_64 txn = .ok txn') : c.Empty txn' := by
  obtain ⟨objects, entries⟩ := clear_spec h
  exact ⟨fun id => congrFun objects id, entries⟩

/-- Puts, deletes and clears keep the indexes consistent, whatever is put. -/
theorem preserved_consistent {c : NativeCollection} (nodup : (c.indexes.map NativeIndex.db).Nodup)
    (condition : NativeTxn → Int64 → Bytes → Prop) :
    Preserved xxh3_64 c condition (Consistent xxh3_64 c) where
  put consistent _ h := (put_spec nodup consistent h).1
  delete consistent h := (delete_consistent nodup consistent h).1
  clear _ h := (clear_consistent h).indexedBy

/-! ## Unique keys -/

/-- In a unique index no key whose source tuple contains no null is bound to two ids. -/
def UniqueBound (c : NativeCollection) (txn : NativeTxn) : Prop :=
  ∀ index ∈ c.indexes, index.unique = true → ∀ key id id' bytes,
    (txn.index index.db).Has key (toIdBytes id) → c.objects txn id = some bytes →
    index.NullFree bytes → (txn.index index.db).Has key (toIdBytes id') → id = id'

theorem Empty.uniqueBound {c : NativeCollection} {txn : NativeTxn} (empty : c.Empty txn) :
    c.UniqueBound txn := by
  intro index mem unique key id id' bytes _ stored
  rw [empty.objects id] at stored
  cases stored

/-- Two stored objects that share a key of the index, the first of them free of nulls there. -/
def Doubled (xxh3_64 : Bytes → UInt64) (index : NativeIndex) (o o' : Bytes) : Prop :=
  index.NullFree o ∧ ∃ key, index.keyOf xxh3_64 o = some key ∧ index.keyOf xxh3_64 o' = some key

/-- With consistent indexes, unique binding is a statement about the stored objects. -/
theorem uniqueBound_iff {c : NativeCollection} {txn : NativeTxn}
    (consistent : Consistent xxh3_64 c txn) :
    c.UniqueBound txn ↔ ∀ index ∈ c.indexes, index.unique = true →
      Apart (Doubled xxh3_64 index) (c.objects txn) := by
  constructor
  · intro bound index mem unique i j o o' stored stored' ⟨nullFree, key, keyed, keyed'⟩
    have exact := consistent index mem
    exact bound index mem unique key i j o ((exact key _).mpr ⟨i, o, rfl, stored, keyed⟩) stored
      nullFree ((exact key _).mpr ⟨j, o', rfl, stored', keyed'⟩)
  · intro apart index mem unique key i j o entry stored nullFree entry'
    have exact := consistent index mem
    obtain ⟨i', o₁, same, stored₁, keyed⟩ := (exact key _).mp entry
    obtain ⟨j', o₂, same', stored₂, keyed'⟩ := (exact key _).mp entry'
    obtain rfl := toIdBytes_injective same
    obtain rfl := toIdBytes_injective same'
    obtain rfl := Option.some.inj (stored.symm.trans stored₁)
    exact apart index mem unique i j o o₂ stored stored₂ ⟨nullFree, key, keyed, keyed'⟩

/-- What `put` has to find in the unique indexes: an object with a null is put only where all other
holders of its key have a null too, and an object without one only where at most one other object
holds its key. -/
def OneHolder (xxh3_64 : Bytes → UInt64) (c : NativeCollection) (txn : NativeTxn) (id : Int64)
    (bytes : Bytes) : Prop :=
  ∀ index ∈ c.indexes, index.unique = true → ∀ key, index.keyOf xxh3_64 bytes = some key →
    (¬ index.NullFree bytes → ∀ j o, j ≠ id → c.objects txn j = some o →
      index.keyOf xxh3_64 o = some key → ¬ index.NullFree o) ∧
    (index.NullFree bytes → ∀ j j' o o', j ≠ id → j' ≠ id → c.objects txn j = some o →
      c.objects txn j' = some o' → index.keyOf xxh3_64 o = some key →
      index.keyOf xxh3_64 o' = some key → j = j')

instance decidableOneHolder (c : NativeCollection) (txn : NativeTxn) (id : Int64) (bytes : Bytes) :
    Decidable (OneHolder xxh3_64 c txn id bytes) :=
  have (index : NativeIndex) (key : Bytes) : Decidable (∀ j o, c.objects txn j = some o →
      ∀ j' o', c.objects txn j' = some o' → j ≠ id → j' ≠ id →
        index.keyOf xxh3_64 o = some key → index.keyOf xxh3_64 o' = some key → j = j') :=
    inferInstance
  decidable_of_iff (∀ index ∈ c.indexes, index.unique = true → ∀ key ∈ index.keyOf xxh3_64 bytes,
      (¬ index.NullFree bytes → ∀ j o, c.objects txn j = some o → j ≠ id →
        index.keyOf xxh3_64 o = some key → ¬ index.NullFree o) ∧
      (index.NullFree bytes → ∀ j o, c.objects txn j = some o → ∀ j' o', c.objects txn j' = some o' →
        j ≠ id → j' ≠ id → index.keyOf xxh3_64 o = some key → index.keyOf xxh3_64 o' = some key →
        j = j'))
    ⟨fun h index mem unique key keyed =>
        ⟨fun null j o other stored => (h index mem unique key keyed).1 null j o stored other,
          fun free j j' o o' other other' stored stored' =>
            (h index mem unique key keyed).2 free j o stored j' o' stored' other other'⟩,
      fun h index mem unique key keyed =>
        ⟨fun null j o stored other => (h index mem unique key keyed).1 null j o other stored,
          fun free j o stored j' o' stored' other other' =>
            (h index mem unique key keyed).2 free j j' o o' other other' stored stored'⟩⟩

/-- A put that meets the condition leaves no doubled key. -/
theorem put_apart {c : NativeCollection} {txn txn' : NativeTxn} {id : Int64} {bytes : Bytes}
    (nodup : (c.indexes.map NativeIndex.db).Nodup) (consistent : Consistent xxh3_64 c txn)
    {index : NativeIndex} (mem : index ∈ c.indexes) (unique : index.unique = true)
    (apart : Apart (Doubled xxh3_64 index) (c.objects txn))
    (one : OneHolder xxh3_64 c txn id bytes) (h : c.put xxh3_64 txn id bytes = .ok txn') :
    Apart (Doubled xxh3_64 index) (c.objects txn') := by
  obtain ⟨-, others, evicts, objects⟩ := put_spec nodup consistent h
  have within : Within others (c.objects txn) := evicts.within.trans (Within.erase _ _)
  rw [objects]
  refine (apart.within within).put fun j o other stored => ?_
  have stored' := within j o stored
  by_cases nullFree : index.NullFree bytes
  · -- A null-free key is looked up: its one other holder is gone.
    have gone : ∀ key, index.keyOf xxh3_64 bytes = some key → index.keyOf xxh3_64 o ≠ some key := by
      intro key keyed keyed'
      have conflict : index.Conflict xxh3_64 bytes o :=
        NativeIndex.conflict_iff.mpr ⟨unique, nullFree, key, keyed, keyed'⟩
      obtain ⟨i, o', stored₁, evicted, conflict'⟩ := evicts.hit _ (List.mem_map_of_mem mem) j o
        (by rwa [Function.update_of_ne other]) conflict
      obtain ⟨-, -, key', keyed₁, keyed₁'⟩ := NativeIndex.conflict_iff.mp conflict'
      obtain rfl := Option.some.inj (keyed.symm.trans keyed₁)
      have other' : i ≠ id := by
        rintro rfl
        rw [Function.update_self] at stored₁
        cases stored₁
      rw [Function.update_of_ne other'] at stored₁
      obtain rfl := (one index mem unique key keyed).2 nullFree j i o o' other other' stored'
        stored₁ keyed' keyed₁'
      rw [evicted] at stored
      cases stored
    constructor
    · rintro ⟨-, key, keyed, keyed'⟩
      exact gone key keyed keyed'
    · rintro ⟨-, key, keyed', keyed⟩
      exact gone key keyed keyed'
  · constructor
    · rintro ⟨free, -⟩
      exact nullFree free
    · rintro ⟨free, key, keyed', keyed⟩
      exact (one index mem unique key keyed).1 nullFree j o other stored' keyed' free

/-- Consistent indexes with unique keys, as one invariant. -/
theorem preserved_uniqueBound {c : NativeCollection}
    (nodup : (c.indexes.map NativeIndex.db).Nodup) :
    Preserved xxh3_64 c (OneHolder xxh3_64 c)
      (fun txn => Consistent xxh3_64 c txn ∧ c.UniqueBound txn) where
  put := by
    rintro txn txn' id bytes ⟨consistent, bound⟩ one h
    have consistent' := (put_spec nodup consistent h).1
    refine ⟨consistent', (uniqueBound_iff consistent').mpr fun index mem unique => ?_⟩
    exact put_apart nodup consistent mem unique
      ((uniqueBound_iff consistent).mp bound index mem unique)
      one h
  delete := by
    rintro txn txn' id found ⟨consistent, bound⟩ h
    obtain ⟨consistent', objects⟩ := delete_consistent nodup consistent h
    refine ⟨consistent', (uniqueBound_iff consistent').mpr fun index mem unique => ?_⟩
    rw [objects]
    exact ((uniqueBound_iff consistent).mp bound index mem unique).within (Within.erase _ _)
  clear := by
    rintro txn txn' - h
    have empty := clear_consistent h
    exact ⟨empty.indexedBy, empty.uniqueBound⟩

/-- Every run from the empty collection keeps the indexes consistent, and as long as every put
finds `OneHolder` the unique indexes bind their null-free keys once. -/
theorem run_indexes_consistent {c : NativeCollection} {txn txn' : NativeTxn}
    {operations : List Operation} (nodup : (c.indexes.map NativeIndex.db).Nodup)
    (empty : c.Empty txn) (h : c.run xxh3_64 txn operations = .ok txn') :
    Consistent xxh3_64 c txn' ∧
    (c.Meets xxh3_64 (OneHolder xxh3_64 c) txn operations → c.UniqueBound txn') := by
  constructor
  · exact (preserved_consistent nodup fun _ _ _ => True).run empty.indexedBy
      (meets_of_forall (fun _ _ _ => trivial) txn operations) h
  · intro meets
    exact ((preserved_uniqueBound nodup).run ⟨empty.indexedBy, empty.uniqueBound⟩ meets h).2

/-! A collection with one unique string index, on which null and `"\u{0}"` meet. -/

def tagName : NativeProperty where
  dataType := .string
  offset := 0
  embeddedCollectionIndex := none

def tagIndex : NativeIndex where
  name := "name"
  properties := [tagName]
  unique := true
  hash := false
  db := "_Tag_name"

def tags : NativeCollection := .new 0 "Tag" (some "id") [("name", tagName)] [tagIndex] (some "Tag")

/-- A tag as the writer stores it. -/
def tag (name : Option (List Char)) : Bytes :=
  ((IsarSerializer.new [] 0 tags.staticSize).bind fun s =>
    match name with
    | some name => s.writeDynamic 0 (Utf8.encode name)
    | none => s.writeNull 0 .string).elim [] IsarSerializer.finish

/-- A put that deletes an object of the same name, beside one of another name. -/
theorem tags_indexes_consistent :
    ∃ txn, tags.run (fun _ => 0) .empty [.save 1 (tag (some ['a'])), .save 2 (tag (some ['b'])),
        .save 3 (tag (some ['a']))] = .ok txn ∧
      (tags.objects txn 1 = none ∧ tags.objects txn 2 = some (tag (some ['b'])) ∧
        tags.objects txn 3 = some (tag (some ['a']))) ∧
      Consistent (fun _ => 0) tags txn ∧ tags.UniqueBound txn := by
  obtain ⟨txn, h, found⟩ := exists_of_succeedsWith
    (tags.run (fun _ => 0) .empty [.save 1 (tag (some ['a'])), .save 2 (tag (some ['b'])),
      .save 3 (tag (some ['a']))])
    (fun txn => tags.objects txn 1 = none ∧ tags.objects txn 2 = some (tag (some ['b'])) ∧
      tags.objects txn 3 = some (tag (some ['a']))) (by decide)
  obtain ⟨consistent, bound⟩ := run_indexes_consistent (by decide)
    (⟨fun _ => rfl, fun _ _ => rfl⟩ : tags.Empty .empty) h
  exact ⟨txn, h, of_decide_eq_true found, consistent, bound (by decide)⟩

/-- Two tags without a name and one named `"\u{0}"`: the key of the third is still bound to the
second. -/
theorem tags_key_bound_twice :
    ∃ txn, tags.run (fun _ => 0) .empty
        [.save 1 (tag none), .save 2 (tag none), .save 3 (tag (some ['\u0000']))] = .ok txn ∧
      ¬ tags.UniqueBound txn := by
  obtain ⟨txn, h, found⟩ := exists_of_succeedsWith
    (tags.run (fun _ => 0) .empty
      [.save 1 (tag none), .save 2 (tag none), .save 3 (tag (some ['\u0000']))])
    (fun txn => (txn.index "_Tag_name").Has [0] (toIdBytes 3) &&
      (txn.index "_Tag_name").Has [0] (toIdBytes 2) &&
      tags.objects txn 3 == some (tag (some ['\u0000']))) (by decide)
  simp only [Bool.and_eq_true, decide_eq_true_eq, beq_iff_eq] at found
  obtain ⟨⟨third, second⟩, stored⟩ := found
  refine ⟨txn, h, fun bound => ?_⟩
  have same : (3 : Int64) = 2 := bound tagIndex (by decide) rfl [0] 3 2 _ third stored
    ⟨[.string (some [0])], rfl, rfl⟩ second
  exact absurd same (by decide)

end IsarPlus.Native.NativeCollection
