import IsarPlus.Native.Proofs.IndexConsistency

/-!
# What a put replaces

`put` deletes what its unique indexes hold under the key of the new object. That these are the
objects with the same indexed values is right as long as equal keys come from equal values, which
`KeysFaithful` says of one put. It fails where null meets `"\u{0}"` and where the empty string
meets `"\u{1}"`, and in a hashed index over several strings.
-/

namespace IsarPlus.Native.NativeCollection
open ByteBuffer OrderedStore SecondaryIndex

variable {xxh3_64 : Bytes → UInt64}

/-- Both objects have the same indexed values, none of them null. -/
def SameValues (index : NativeIndex) (new old : Bytes) : Prop :=
  index.NullFree new ∧ index.tupleOf old = index.tupleOf new

/-- The object has the same null-free values as the new one on a unique index. -/
def Duplicate (c : NativeCollection) (new old : Bytes) : Prop :=
  ∃ index ∈ c.indexes, index.unique = true ∧ SameValues index new old

/-- No two objects have the same null-free values on a unique index. -/
def UniqueValues (c : NativeCollection) (txn : NativeTxn) : Prop :=
  ∀ index ∈ c.indexes, index.unique = true → Apart (SameValues index) (c.objects txn)

/-- On every unique index on which the new object is free of nulls, the other objects with the same
key have the same values. -/
def KeysFaithful (xxh3_64 : Bytes → UInt64) (c : NativeCollection) (txn : NativeTxn) (id : Int64)
    (bytes : Bytes) : Prop :=
  ∀ index ∈ c.indexes, index.unique = true → index.NullFree bytes → ∀ j o, j ≠ id →
    c.objects txn j = some o → index.keyOf xxh3_64 o = index.keyOf xxh3_64 bytes →
    index.tupleOf o = index.tupleOf bytes

instance decidableKeysFaithful (c : NativeCollection) (txn : NativeTxn) (id : Int64) (bytes : Bytes) :
    Decidable (KeysFaithful xxh3_64 c txn id bytes) :=
  decidable_of_iff (∀ index ∈ c.indexes, index.unique = true → index.NullFree bytes →
      ∀ j o, c.objects txn j = some o → j ≠ id →
        index.keyOf xxh3_64 o = index.keyOf xxh3_64 bytes → index.tupleOf o = index.tupleOf bytes)
    ⟨fun h index mem unique nullFree j o other stored =>
        h index mem unique nullFree j o stored other,
      fun h index mem unique nullFree j o stored other =>
        h index mem unique nullFree j o other stored⟩

theorem SameValues.symm {index : NativeIndex} {o o' : Bytes} (h : SameValues index o o') :
    SameValues index o' o := by
  obtain ⟨⟨values, tuple, nullFree⟩, same⟩ := h
  exact ⟨⟨values, same.trans tuple, nullFree⟩, same.symm⟩

theorem SameValues.trans {index : NativeIndex} {o o' o'' : Bytes} (h : SameValues index o o')
    (h' : SameValues index o' o'') : SameValues index o o'' :=
  ⟨h.1, h'.2.trans h.2⟩

/-- Objects with the same values have the same key. -/
theorem SameValues.conflict {index : NativeIndex} {new old : Bytes} (unique : index.unique = true)
    (h : SameValues index new old) : index.Conflict xxh3_64 new old := by
  obtain ⟨nullFree, same⟩ := h
  refine NativeIndex.conflict_iff.mpr ⟨unique, nullFree, ?_⟩
  obtain ⟨values, tuple, -⟩ := nullFree
  refine ⟨index.encode xxh3_64 values, ?_, ?_⟩ <;> simp [NativeIndex.keyOf_eq, same, tuple]

/-- Where keys are faithful, the lookup finds nothing but duplicates. -/
theorem KeysFaithful.sameValues {c : NativeCollection} {txn : NativeTxn} {id j : Int64}
    {bytes o : Bytes} (faithful : KeysFaithful xxh3_64 c txn id bytes) {index : NativeIndex}
    (mem : index ∈ c.indexes) (other : j ≠ id) (stored : c.objects txn j = some o)
    (conflict : index.Conflict xxh3_64 bytes o) : SameValues index bytes o := by
  obtain ⟨unique, nullFree, key, keyed, keyed'⟩ := NativeIndex.conflict_iff.mp conflict
  exact ⟨nullFree, faithful index mem unique nullFree j o other stored (keyed'.trans keyed.symm)⟩

/-- A put with faithful keys replaces exactly the duplicates of the new object. -/
theorem put_replaces {c : NativeCollection} {txn txn' : NativeTxn} {id : Int64} {bytes : Bytes}
    (nodup : (c.indexes.map NativeIndex.db).Nodup) (consistent : Consistent xxh3_64 c txn)
    (unique : c.UniqueValues txn) (faithful : KeysFaithful xxh3_64 c txn id bytes)
    (h : c.put xxh3_64 txn id bytes = .ok txn') :
    c.objects txn' id = some bytes ∧
    ∀ j o, j ≠ id → (c.objects txn' j = some o ↔
      c.objects txn j = some o ∧ ¬ c.Duplicate bytes o) := by
  obtain ⟨-, others, evicts, objects⟩ := put_spec nodup consistent h
  have stored_other {i : Int64} {o : Bytes}
      (stored : Function.update (c.objects txn) id none i = some o) :
      i ≠ id ∧ c.objects txn i = some o := by
    by_cases same : i = id
    · subst same
      rw [Function.update_self] at stored
      cases stored
    · exact ⟨same, by rwa [Function.update_of_ne same] at stored⟩
  have alone : ∀ C ∈ c.indexes.map (·.Conflict xxh3_64 bytes), ∀ i j o o',
      Function.update (c.objects txn) id none i = some o →
      Function.update (c.objects txn) id none j = some o' → C o → C o' → i = j := by
    intro C classMem i j o o' stored stored' conflict conflict'
    obtain ⟨index, mem, rfl⟩ := List.mem_map.mp classMem
    obtain ⟨other, stored⟩ := stored_other stored
    obtain ⟨other', stored'⟩ := stored_other stored'
    have same := faithful.sameValues mem other stored conflict
    have same' := faithful.sameValues mem other' stored' conflict'
    exact unique index mem conflict.1 i j o o' stored stored' (same.symm.trans same')
  refine ⟨by rw [objects, Function.update_self], fun j o other => ?_⟩
  rw [objects, Function.update_of_ne other, evicts.eq_some_iff alone, Function.update_of_ne other]
  refine and_congr_right fun stored => ?_
  constructor
  · rintro clear ⟨index, mem, isUnique, same⟩
    exact clear _ (List.mem_map_of_mem mem) (same.conflict isUnique)
  · intro noDuplicate C classMem conflict
    obtain ⟨index, mem, rfl⟩ := List.mem_map.mp classMem
    exact noDuplicate ⟨index, mem, conflict.1, faithful.sameValues mem other stored conflict⟩

/-- A put with faithful keys keeps the values of unique indexes unique. -/
theorem put_uniqueValues {c : NativeCollection} {txn txn' : NativeTxn} {id : Int64} {bytes : Bytes}
    (nodup : (c.indexes.map NativeIndex.db).Nodup) (consistent : Consistent xxh3_64 c txn)
    (unique : c.UniqueValues txn) (faithful : KeysFaithful xxh3_64 c txn id bytes)
    (h : c.put xxh3_64 txn id bytes = .ok txn') : c.UniqueValues txn' := by
  obtain ⟨at_id, kept⟩ := put_replaces nodup consistent unique faithful h
  intro index mem isUnique i j o o' stored stored' same
  by_cases hi : i = id <;> by_cases hj : j = id
  · exact hi.trans hj.symm
  · subst hi
    obtain rfl := Option.some.inj (at_id.symm.trans stored)
    exact absurd ⟨index, mem, isUnique, same⟩ ((kept j o' hj).mp stored').2
  · subst hj
    obtain rfl := Option.some.inj (at_id.symm.trans stored')
    exact absurd ⟨index, mem, isUnique, same.symm⟩ ((kept i o hi).mp stored).2
  · exact unique index mem isUnique i j o o' ((kept i o hi).mp stored).1
      ((kept j o' hj).mp stored').1 same

/-- Consistent indexes and unique values, as one invariant. -/
theorem preserved_uniqueValues {c : NativeCollection}
    (nodup : (c.indexes.map NativeIndex.db).Nodup) :
    Preserved xxh3_64 c (KeysFaithful xxh3_64 c)
      (fun txn => Consistent xxh3_64 c txn ∧ c.UniqueValues txn) where
  put := by
    rintro txn txn' id bytes ⟨consistent, unique⟩ faithful h
    exact ⟨(put_spec nodup consistent h).1, put_uniqueValues nodup consistent unique faithful h⟩
  delete := by
    rintro txn txn' id found ⟨consistent, unique⟩ h
    obtain ⟨consistent', objects⟩ := delete_consistent nodup consistent h
    refine ⟨consistent', fun index mem isUnique => ?_⟩
    rw [objects]
    exact (unique index mem isUnique).within (Within.erase _ _)
  clear := by
    rintro txn txn' - h
    have empty := clear_consistent h
    refine ⟨empty.indexedBy, fun index mem isUnique => ?_⟩
    rw [funext empty.objects]
    exact Apart.empty _

/-- In every state that a run of puts with faithful keys reaches, the next such put binds the id to
the new object and removes exactly its duplicates. -/
theorem run_put_replaces {c : NativeCollection} {txn₀ txn txn' : NativeTxn}
    {operations : List Operation} {id : Int64} {bytes : Bytes}
    (nodup : (c.indexes.map NativeIndex.db).Nodup) (empty : c.Empty txn₀)
    (h : c.run xxh3_64 txn₀ operations = .ok txn)
    (meets : c.Meets xxh3_64 (KeysFaithful xxh3_64 c) txn₀ operations)
    (faithful : KeysFaithful xxh3_64 c txn id bytes)
    (hput : c.put xxh3_64 txn id bytes = .ok txn') :
    c.objects txn' id = some bytes ∧
    ∀ j o, j ≠ id → (c.objects txn' j = some o ↔
      c.objects txn j = some o ∧ ¬ c.Duplicate bytes o) := by
  have unique₀ : c.UniqueValues txn₀ := by
    intro index mem isUnique
    rw [funext empty.objects]
    exact Apart.empty _
  obtain ⟨consistent, unique⟩ :=
    (preserved_uniqueValues nodup).run ⟨empty.indexedBy, unique₀⟩ meets h
  exact put_replaces nodup consistent unique faithful hput

/-- A put of the name `"a"` deletes the object of this name and keeps the one named `"b"`. -/
theorem tags_put_replaces :
    ∃ txn txn', tags.run (fun _ => 0) .empty
        [.save 1 (tag (some ['a'])), .save 2 (tag (some ['b']))] = .ok txn ∧
      tags.put (fun _ => 0) txn 3 (tag (some ['a'])) = .ok txn' ∧
      tags.objects txn 1 = some (tag (some ['a'])) ∧ tags.objects txn' 1 = none ∧
      tags.objects txn' 2 = some (tag (some ['b'])) ∧
      tags.objects txn' 3 = some (tag (some ['a'])) := by
  obtain ⟨⟨txn, txn'⟩, h, found⟩ := exists_of_succeedsWith
    (do
      let txn ← tags.run (fun _ => 0) .empty
        [.save 1 (tag (some ['a'])), .save 2 (tag (some ['b']))]
      let txn' ← tags.put (fun _ => 0) txn 3 (tag (some ['a']))
      pure (txn, txn'))
    (fun (txn, _) => KeysFaithful (fun _ => 0) tags txn 3 (tag (some ['a'])) ∧
      tags.objects txn 1 = some (tag (some ['a'])) ∧ tags.objects txn 2 = some (tag (some ['b'])))
    (by decide)
  simp only [bind_eq_ok, pure_eq_ok, Prod.mk.injEq] at h
  obtain ⟨txn, saved, txn', put, rfl, rfl⟩ := h
  obtain ⟨faithful, first, second⟩ := of_decide_eq_true found
  obtain ⟨third, others⟩ := run_put_replaces (by decide)
    (⟨fun _ => rfl, fun _ _ => rfl⟩ : tags.Empty .empty) saved (by decide) faithful put
  refine ⟨txn, txn', saved, put, first, ?_, ?_, third⟩
  · rw [Option.eq_none_iff_forall_ne_some]
    intro o stored
    obtain ⟨stored, distinct⟩ := (others 1 o (by decide)).mp stored
    obtain rfl := Option.some.inj (first.symm.trans stored)
    exact distinct ⟨tagIndex, by decide, rfl, ⟨[.string (some [97])], rfl, rfl⟩, rfl⟩
  · refine (others 2 _ (by decide)).mpr ⟨second, ?_⟩
    rintro ⟨index, mem, -, -, same⟩
    obtain rfl := List.mem_singleton.mp mem
    exact absurd same (by decide)

/-- Putting the name `"\u{0}"` deletes an object whose name is null. -/
theorem tags_put_deletes_null :
    ∃ txn txn', tags.run (fun _ => 0) .empty [.save 1 (tag none)] = .ok txn ∧
      tags.put (fun _ => 0) txn 2 (tag (some ['\u0000'])) = .ok txn' ∧
      tags.objects txn 1 = some (tag none) ∧
      ¬ tags.Duplicate (tag (some ['\u0000'])) (tag none) ∧ tags.objects txn' 1 = none := by
  obtain ⟨⟨txn, txn'⟩, h, found⟩ := exists_of_succeedsWith
    (do
      let txn ← tags.run (fun _ => 0) .empty [.save 1 (tag none)]
      let txn' ← tags.put (fun _ => 0) txn 2 (tag (some ['\u0000']))
      pure (txn, txn'))
    (fun (txn, txn') => tags.objects txn 1 == some (tag none) && tags.objects txn' 1 == none)
    (by decide)
  simp only [bind_eq_ok, pure_eq_ok, Prod.mk.injEq] at h
  obtain ⟨txn, saved, txn', put, rfl, rfl⟩ := h
  simp only [Bool.and_eq_true, beq_iff_eq] at found
  refine ⟨txn, txn', saved, put, found.1, ?_, found.2⟩
  rintro ⟨index, mem, -, -, same⟩
  obtain rfl := List.mem_singleton.mp mem
  exact absurd same (by decide)

end IsarPlus.Native.NativeCollection
