import IsarPlus.Native.IndexTuple
import IsarPlus.Native.Instance
import IsarPlus.Native.Proofs.CursorRanges

/-!
# What put, delete and clear do to objects and index entries

One specification for each operation, from the loops over the indexes up. `IndexedBy` is the loop
invariant: while an operation is under way the indexes that it has already passed describe another
table of objects than those still to come.
-/

namespace IsarPlus.Native
open ByteBuffer OrderedStore SecondaryIndex

variable (xxh3_64 : Bytes → UInt64)

/-- The key and null flag of stored bytes under an index. -/
def NativeIndex.entry (index : NativeIndex) (bytes : Bytes) : Option (Bytes × Bool) :=
  (IsarDeserializer.fromBytes bytes).bind (index.createKey xxh3_64)

/-- The key of stored bytes under an index. -/
def NativeIndex.keyOf (index : NativeIndex) (bytes : Bytes) : Option Bytes :=
  (index.entry xxh3_64 bytes).map Prod.fst

variable {xxh3_64}

theorem NativeIndex.entry_of_createKey {index : NativeIndex} {bytes : Bytes}
    {object : IsarDeserializer} (parsed : IsarDeserializer.fromBytes bytes = some object) :
    index.entry xxh3_64 bytes = index.createKey xxh3_64 object := by
  simp [entry, parsed]

/-- The indexed values of stored bytes. -/
def NativeIndex.tupleOf (index : NativeIndex) (bytes : Bytes) : Option (List IndexValue) :=
  (IsarDeserializer.fromBytes bytes).bind index.tuple

theorem NativeIndex.entry_eq (index : NativeIndex) (bytes : Bytes) :
    index.entry xxh3_64 bytes = (index.tupleOf bytes).map fun values =>
      (index.encode xxh3_64 values, values.any IndexValue.isNull) := by
  unfold entry tupleOf
  cases IsarDeserializer.fromBytes bytes with
  | none => rfl
  | some object => exact createKey_eq xxh3_64 index object

theorem NativeIndex.keyOf_eq (index : NativeIndex) (bytes : Bytes) :
    index.keyOf xxh3_64 bytes = (index.tupleOf bytes).map (index.encode xxh3_64) := by
  rw [keyOf, entry_eq, Option.map_map]
  rfl

/-- No indexed value of the bytes is null. -/
def NativeIndex.NullFree (index : NativeIndex) (bytes : Bytes) : Prop :=
  ∃ values, index.tupleOf bytes = some values ∧ values.any IndexValue.isNull = false

instance (index : NativeIndex) (bytes : Bytes) : Decidable (index.NullFree bytes) :=
  inferInstanceAs (Decidable (∃ values ∈ index.tupleOf bytes, values.any IndexValue.isNull = false))

/-! ## Removing the entries of an object -/

/-- Removing one object's entry under one index. -/
theorem NativeIndex.deleteForObject_spec {index : NativeIndex} {txn txn' : NativeTxn} {id : Int64}
    {object : IsarDeserializer} (h : index.deleteForObject xxh3_64 txn id object = .ok txn') :
    ∃ key containsNull, index.createKey xxh3_64 object = some (key, containsNull) ∧
      txn' = txn.deleteEntry index.db key (toIdBytes id) := by
  simp only [deleteForObject, bind_eq_ok, orPanic_eq_ok] at h
  obtain ⟨⟨key, containsNull⟩, created, h⟩ := h
  refine ⟨key, containsNull, created, ?_⟩
  split at h
  · exact (pure_eq_ok.mp h).symm
  · rename_i absent
    have same : txn' = txn := (pure_eq_ok.mp h).symm
    simp only [NativeTxn.deleteEntry, MultiMap.del_of_not_has absent, Function.update_eq_self, same]

/-- Removing one object's entries under a list of indexes changes the databases of these indexes
and nothing else. -/
theorem foldlM_deleteForObject {indexes : List NativeIndex} {txn txn' : NativeTxn} {id : Int64}
    {object : IsarDeserializer} (nodup : (indexes.map NativeIndex.db).Nodup)
    (h : indexes.foldlM (fun txn index => index.deleteForObject xxh3_64 txn id object) txn
      = .ok txn') :
    txn' = { txn with index := txn'.index } ∧
    (∀ index ∈ indexes, ∃ key containsNull,
      index.createKey xxh3_64 object = some (key, containsNull) ∧
      txn'.index index.db = (txn.index index.db).del key (toIdBytes id)) ∧
    ∀ db, db ∉ indexes.map NativeIndex.db → txn'.index db = txn.index db := by
  induction indexes generalizing txn with
  | nil =>
    have same : txn' = txn := (pure_eq_ok.mp h).symm
    subst same
    exact ⟨rfl, by simp, fun _ _ => rfl⟩
  | cons index indexes ih =>
    obtain ⟨fresh, nodup⟩ := List.nodup_cons.mp nodup
    simp only [List.foldlM_cons, bind_eq_ok] at h
    obtain ⟨txn₁, first, rest⟩ := h
    obtain ⟨key, containsNull, created, rfl⟩ := NativeIndex.deleteForObject_spec first
    obtain ⟨same, removed, untouched⟩ := ih nodup rest
    refine ⟨same, ?_, ?_⟩
    · intro index' mem
      rcases List.mem_cons.mp mem with rfl | mem
      · refine ⟨key, containsNull, created, ?_⟩
        rw [untouched _ fresh, NativeTxn.index_deleteEntry, Function.update_self]
      · obtain ⟨key', containsNull', created', removed'⟩ := removed index' mem
        have other : index'.db ≠ index.db := fun eq => fresh (eq ▸ List.mem_map_of_mem mem)
        refine ⟨key', containsNull', created', ?_⟩
        rw [removed', NativeTxn.index_deleteEntry, Function.update_of_ne other]
    · intro db outside
      simp only [List.map_cons, List.mem_cons, not_or] at outside
      rw [untouched db outside.2, NativeTxn.index_deleteEntry, Function.update_of_ne outside.1]

namespace NativeCollection

/-- The objects of a collection. -/
def objects (c : NativeCollection) (txn : NativeTxn) (id : Int64) : Option Bytes :=
  c.db.bind fun db => txn.get db id

/-- Every index holds exactly the entries of its table of objects. -/
def IndexedBy (xxh3_64 : Bytes → UInt64) (indexes : List NativeIndex)
    (table : NativeIndex → Int64 → Option Bytes) (txn : NativeTxn) : Prop :=
  ∀ index ∈ indexes, Exact (index.keyOf xxh3_64) toIdBytes (table index) (txn.index index.db)

theorem cursorDb_eq_ok {c : NativeCollection} {db : Db} :
    c.cursorDb = .ok db ↔ c.db = some db := by
  unfold cursorDb
  split <;> simp_all

theorem objects_of_db {c : NativeCollection} {txn : NativeTxn} {db : Db} (h : c.db = some db) :
    c.objects txn = txn.get db := by
  funext id
  simp [objects, h]

/-- The objects of a collection are listed in its primary database. -/
theorem forall_objects {c : NativeCollection} {txn : NativeTxn} {P : Int64 → Bytes → Prop} :
    (∀ db ∈ c.db, ∀ e ∈ (txn.primary db).entries, P (idOfKey e.1) e.2) ↔
      ∀ id bytes, c.objects txn id = some bytes → P id bytes := by
  constructor
  · intro all id bytes stored
    obtain ⟨db, opened, found⟩ := Option.bind_eq_some_iff.mp stored
    have listed := all db opened _ (SortedMap.mem_entries.mpr found)
    rwa [idKey_injective (idKey_idOfKey (idKey id))] at listed
  · intro all db opened e mem
    apply all
    rw [objects_of_db opened, NativeTxn.get, idKey_idOfKey]
    exact SortedMap.mem_entries.mp mem

instance {c : NativeCollection} {txn : NativeTxn} {P : Int64 → Bytes → Prop}
    [∀ id bytes, Decidable (P id bytes)] :
    Decidable (∀ id bytes, c.objects txn id = some bytes → P id bytes) :=
  decidable_of_iff _ forall_objects

theorem objects_congr {c : NativeCollection} {txn txn' : NativeTxn}
    (h : txn'.primary = txn.primary) : c.objects txn' = c.objects txn := by
  funext id
  simp [objects, NativeTxn.get, h]

theorem index_registerDetailed (c : NativeCollection) (txn : NativeTxn) (id : Int64)
    (old new : Option Bytes) : (c.registerDetailed txn id old new).index = txn.index := by
  unfold registerDetailed
  split <;> rfl

theorem primary_registerDetailed (c : NativeCollection) (txn : NativeTxn) (id : Int64)
    (old new : Option Bytes) : (c.registerDetailed txn id old new).primary = txn.primary := by
  unfold registerDetailed
  split <;> rfl

/-- Removing the entries of a stored object takes it out of the table of every index. -/
theorem deleteEntries_spec {c : NativeCollection} {txn txn' : NativeTxn} {id : Int64}
    {object : IsarDeserializer} {bytes : Bytes} {table : NativeIndex → Int64 → Option Bytes}
    (nodup : (c.indexes.map NativeIndex.db).Nodup)
    (parsed : IsarDeserializer.fromBytes bytes = some object)
    (stored : ∀ index, table index id = some bytes)
    (indexed : IndexedBy xxh3_64 c.indexes table txn)
    (h : c.deleteEntries xxh3_64 txn id object = .ok txn') :
    txn'.primary = txn.primary ∧
    IndexedBy xxh3_64 c.indexes (fun index => Function.update (table index) id none) txn' := by
  obtain ⟨same, removed, -⟩ := foldlM_deleteForObject nodup h
  refine ⟨by rw [same], fun index mem => ?_⟩
  obtain ⟨key, containsNull, created, eq⟩ := removed index mem
  have keyed : index.keyOf xxh3_64 bytes = some key := by
    simp [NativeIndex.keyOf, NativeIndex.entry_of_createKey parsed, created]
  rw [eq]
  exact (indexed index mem).del (fun _ _ => toIdBytes_injective) (stored index) keyed

/-- `delete` takes the object out of the primary database and of every index, and does nothing
where there is no object. -/
theorem delete_spec {c : NativeCollection} {txn txn' : NativeTxn} {id : Int64} {found : Bool}
    {table : NativeIndex → Int64 → Option Bytes} (nodup : (c.indexes.map NativeIndex.db).Nodup)
    (stored : ∀ index, table index id = c.objects txn id)
    (indexed : IndexedBy xxh3_64 c.indexes table txn)
    (h : c.delete xxh3_64 txn id = .ok (txn', found)) :
    found = (c.objects txn id).isSome ∧
    c.objects txn' = Function.update (c.objects txn) id none ∧
    IndexedBy xxh3_64 c.indexes (fun index => Function.update (table index) id none) txn' := by
  simp only [delete, bind_eq_ok, cursorDb_eq_ok] at h
  obtain ⟨db, hdb, h⟩ := h
  rw [objects_of_db hdb] at *
  split at h
  · rename_i bytes at_id
    simp only [bind_eq_ok, orPanic_eq_ok, pure_eq_ok, Prod.mk.injEq] at h
    obtain ⟨object, parsed, txn₁, removed, rfl, rfl⟩ := h
    have indexed₁ : IndexedBy xxh3_64 c.indexes table
        (c.registerDetailed (txn.register (.object c.name id bytes)) id (some bytes) none) := by
      intro index mem
      rw [index_registerDetailed, NativeTxn.index_register]
      exact indexed index mem
    obtain ⟨same, indexed'⟩ := deleteEntries_spec nodup parsed
      (fun index => (stored index).trans at_id) indexed₁ removed
    refine ⟨by simp [at_id], ?_, indexed'⟩
    funext id'
    rw [objects_of_db hdb, NativeTxn.get_deleteObject, Function.update_apply]
    simp only [NativeTxn.get, same, primary_registerDetailed]
    rfl
  · rename_i at_id
    simp only [pure_eq_ok, Prod.mk.injEq] at h
    obtain ⟨rfl, rfl⟩ := h
    refine ⟨by simp [at_id], ?_, fun index mem => ?_⟩
    · rw [objects_of_db hdb, ← at_id, Function.update_eq_self]
    · have same : Function.update (table index) id none = table index := by
        rw [← (stored index).trans at_id, Function.update_eq_self]
      simp only [same]
      exact indexed index mem

end NativeCollection

/-! ## Storing the entries of an object -/

/-- Stored bytes that a unique index takes for a duplicate of the new ones: the new key is free of
nulls and the bytes have the same key. -/
def NativeIndex.Conflict (xxh3_64 : Bytes → UInt64) (index : NativeIndex) (new old : Bytes) :
    Prop :=
  index.unique = true ∧
    ∃ key, index.entry xxh3_64 new = some (key, false) ∧ index.keyOf xxh3_64 old = some key

theorem NativeIndex.conflict_iff {index : NativeIndex} {new old : Bytes} :
    index.Conflict xxh3_64 new old ↔ index.unique = true ∧ index.NullFree new ∧
      ∃ key, index.keyOf xxh3_64 new = some key ∧ index.keyOf xxh3_64 old = some key := by
  simp only [Conflict, NullFree, entry_eq, keyOf_eq, Option.map_eq_some_iff, Prod.mk.injEq]
  constructor
  · rintro ⟨unique, key, ⟨values, tuple, rfl, nullFree⟩, old⟩
    exact ⟨unique, ⟨values, tuple, nullFree⟩, _, ⟨values, tuple, rfl⟩, old⟩
  · rintro ⟨unique, ⟨values, tuple, nullFree⟩, key, ⟨values', tuple', rfl⟩, old⟩
    obtain rfl := Option.some.inj (tuple.symm.trans tuple')
    exact ⟨unique, _, ⟨values, tuple, rfl, nullFree⟩, old⟩

namespace NativeCollection

/-- The lookup and deletion for one index in the loop of `put`. The indexes in `finished` already
describe `others` with the new object, the remaining ones describe `others`. -/
theorem deleteConflict_spec {c : NativeCollection} {finished todo : List NativeIndex}
    {index : NativeIndex} {txn txn' : NativeTxn} {id : Int64} {bytes key : Bytes}
    {containsNull : Bool} {others : Int64 → Option Bytes}
    (nodup : (c.indexes.map NativeIndex.db).Nodup) (split : c.indexes = finished ++ index :: todo)
    (entry : index.entry xxh3_64 bytes = some (key, containsNull)) (free : others id = none)
    (rest : ∀ j, j ≠ id → c.objects txn j = others j)
    (before : IndexedBy xxh3_64 finished (fun _ => Function.update others id (some bytes)) txn)
    (after : IndexedBy xxh3_64 (index :: todo) (fun _ => others) txn)
    (h : index.deleteConflict txn key containsNull
      (fun txn conflict => (c.delete xxh3_64 txn conflict).map Prod.fst) = .ok txn') :
    ∃ others', Evicts [index.Conflict xxh3_64 bytes] others others' ∧
      (∀ j, j ≠ id → c.objects txn' j = others' j) ∧
      c.objects txn' id = c.objects txn id ∧
      IndexedBy xxh3_64 finished (fun _ => Function.update others' id (some bytes)) txn' ∧
      IndexedBy xxh3_64 (index :: todo) (fun _ => others') txn' := by
  have exact := after index List.mem_cons_self
  unfold NativeIndex.deleteConflict at h
  split at h
  · rename_i guarded
    obtain ⟨unique, nullFree⟩ : index.unique = true ∧ containsNull = false := by
      simpa using guarded
    subst nullFree
    split at h
    · rename_i idBytes found
      simp only [bind_eq_ok, orPanic_eq_ok] at h
      obtain ⟨conflict, decoded, h⟩ := h
      obtain ⟨i, o, rfl, stored, keyed⟩ := exact.of_firstDup found
      obtain rfl : i = conflict := by simpa using decoded
      obtain ⟨⟨txn₁, removed⟩, deleted, rfl⟩ := map_eq_ok.mp h
      have other : i ≠ id := fun eq => by simp only [eq, free, reduceCtorEq] at stored
      -- The table of each index, as `delete` finds it.
      let table : NativeIndex → Int64 → Option Bytes := fun index' =>
        if index' ∈ finished then Function.update others id (some bytes) else others
      have separate : ∀ index' ∈ index :: todo, index' ∉ finished := by
        intro index' mem mem'
        rw [split, List.map_append] at nodup
        exact (List.disjoint_of_nodup_append nodup) (List.mem_map_of_mem mem')
          (List.mem_map_of_mem mem)
      have indexed : IndexedBy xxh3_64 c.indexes table txn := by
        intro index' mem
        rw [split] at mem
        rcases List.mem_append.mp mem with mem | mem
        · simpa only [table, if_pos mem] using before index' mem
        · simpa only [table, if_neg (separate index' mem)] using after index' mem
      have stored' : ∀ index', table index' i = c.objects txn i := by
        intro index'
        simp only [table, rest i other]
        split
        · rw [Function.update_of_ne other]
        · rfl
      obtain ⟨-, objects', indexed'⟩ := delete_spec nodup stored' indexed deleted
      refine ⟨Function.update others i none,
        Evicts.erase stored ⟨unique, key, entry, keyed⟩, ?_, ?_, ?_, ?_⟩
      · intro j hj
        rw [objects', Function.update_apply, Function.update_apply, rest j hj]
      · rw [objects', Function.update_of_ne other.symm]
      · intro index' mem
        have := indexed' index' (split ▸ List.mem_append_left _ mem)
        simpa only [table, if_pos mem, Function.update_comm other] using this
      · intro index' mem
        have := indexed' index' (split ▸ List.mem_append_right _ mem)
        simpa only [table, if_neg (separate index' mem)] using this
    · rename_i found
      obtain rfl := pure_eq_ok.mp h
      refine ⟨others, Evicts.of_clear ?_, rest, rfl, before, after⟩
      rintro j o stored ⟨-, key', entry', keyed⟩
      obtain ⟨rfl, -⟩ : key = key' ∧ false = false := by simpa [entry] using entry'
      exact exact.of_firstDup_none found stored keyed
  · rename_i unguarded
    obtain rfl := pure_eq_ok.mp h
    refine ⟨others, Evicts.of_clear ?_, rest, rfl, before, after⟩
    rintro j o stored ⟨unique, key', entry', -⟩
    rw [entry, Option.some.injEq, Prod.mk.injEq] at entry'
    exact unguarded (by simp [unique, entry'.2])

/-- The loop of `put` over the indexes that remain. -/
theorem foldlM_createForObject {c : NativeCollection} {finished todo : List NativeIndex}
    {txn txn' : NativeTxn} {id : Int64} {bytes : Bytes}
    {object : IsarDeserializer} {others : Int64 → Option Bytes}
    (nodup : (c.indexes.map NativeIndex.db).Nodup) (split : c.indexes = finished ++ todo)
    (parsed : IsarDeserializer.fromBytes bytes = some object) (free : others id = none)
    (rest : ∀ j, j ≠ id → c.objects txn j = others j)
    (before : IndexedBy xxh3_64 finished (fun _ => Function.update others id (some bytes)) txn)
    (after : IndexedBy xxh3_64 todo (fun _ => others) txn)
    (h : todo.foldlM (fun txn index => index.createForObject xxh3_64 txn id object
      fun txn conflict => (c.delete xxh3_64 txn conflict).map Prod.fst) txn = .ok txn') :
    ∃ others', Evicts (todo.map (·.Conflict xxh3_64 bytes)) others others' ∧
      (∀ j, j ≠ id → c.objects txn' j = others' j) ∧
      IndexedBy xxh3_64 c.indexes (fun _ => Function.update others' id (some bytes)) txn' := by
  induction todo generalizing finished txn others with
  | nil =>
    obtain rfl : txn = txn' := pure_eq_ok.mp h
    rw [List.append_nil] at split
    exact ⟨others, Evicts.refl others, rest, split ▸ before⟩
  | cons index todo ih =>
    simp only [List.foldlM_cons, bind_eq_ok] at h
    obtain ⟨txn₁, first, h⟩ := h
    simp only [NativeIndex.createForObject, bind_eq_ok, orPanic_eq_ok, pure_eq_ok] at first
    obtain ⟨⟨key, containsNull⟩, created, txn₀, cleared, rfl⟩ := first
    have entry : index.entry xxh3_64 bytes = some (key, containsNull) :=
      (NativeIndex.entry_of_createKey parsed).trans created
    have keyed : index.keyOf xxh3_64 bytes = some key := by simp [NativeIndex.keyOf, entry]
    obtain ⟨others₁, evicts, rest₁, -, before₁, after₁⟩ :=
      deleteConflict_spec nodup split entry free rest before after cleared
    have free₁ : others₁ id = none := by
      cases stored : others₁ id with
      | none => rfl
      | some o => rw [evicts.within id o stored] at free; cases free
    have fresh : ∀ index' ∈ finished ++ todo, index'.db ≠ index.db := by
      intro index' mem eq
      have : (index.db :: (finished ++ todo).map NativeIndex.db).Nodup := by
        rw [split] at nodup
        simpa using (List.perm_middle.map NativeIndex.db).nodup_iff.mp nodup
      exact (List.nodup_cons.mp this).1 (eq ▸ List.mem_map_of_mem mem)
    have split' : c.indexes = (finished ++ [index]) ++ todo := by simpa using split
    have before' : IndexedBy xxh3_64 (finished ++ [index])
        (fun _ => Function.update others₁ id (some bytes))
        (txn₀.putEntry index.db key (toIdBytes id)) := by
      intro index' mem
      rw [NativeTxn.index_putEntry]
      rcases List.mem_append.mp mem with mem | mem
      · rw [Function.update_of_ne (fresh index' (List.mem_append_left _ mem))]
        exact before₁ index' mem
      · obtain rfl := List.mem_singleton.mp mem
        rw [Function.update_self]
        exact (after₁ index' List.mem_cons_self).put free₁ keyed
    have after' : IndexedBy xxh3_64 todo (fun _ => others₁)
        (txn₀.putEntry index.db key (toIdBytes id)) := by
      intro index' mem
      rw [NativeTxn.index_putEntry,
        Function.update_of_ne (fresh index' (List.mem_append_right _ mem))]
      exact after₁ index' (List.mem_cons_of_mem _ mem)
    have rest' : ∀ j, j ≠ id →
        c.objects (txn₀.putEntry index.db key (toIdBytes id)) j = others₁ j := rest₁
    obtain ⟨others', evicts', rest', indexed⟩ := ih split' free₁ rest' before' after' h
    exact ⟨others', evicts.trans evicts', rest', indexed⟩

/-! ## Put and clear -/

/-- The entries of every index are those of the stored objects. -/
def Consistent (xxh3_64 : Bytes → UInt64) (c : NativeCollection) (txn : NativeTxn) : Prop :=
  IndexedBy xxh3_64 c.indexes (fun _ => c.objects txn) txn

/-- The first loop of `put` takes the old object out of every index. -/
theorem deleteOldEntries_spec {c : NativeCollection} {txn txn' : NativeTxn} {id : Int64} {db : Db}
    (nodup : (c.indexes.map NativeIndex.db).Nodup) (hdb : c.db = some db)
    (consistent : Consistent xxh3_64 c txn)
    (h : c.deleteOldEntries xxh3_64 txn id (c.oldObject txn db id) = .ok txn') :
    txn'.primary = txn.primary ∧
    IndexedBy xxh3_64 c.indexes (fun _ => Function.update (c.objects txn) id none) txn' := by
  cases old : c.oldObject txn db id with
  | some oldBytes =>
    simp only [old, deleteOldEntries, bind_eq_ok, orPanic_eq_ok] at h
    obtain ⟨object, parsed, removed⟩ := h
    have stored : c.objects txn id = some oldBytes := by
      rw [objects_of_db hdb]
      unfold oldObject at old
      split at old
      · exact old
      · cases old
    exact deleteEntries_spec nodup parsed (fun _ => stored) consistent removed
  | none =>
    rw [old] at h
    obtain rfl : txn = txn' := pure_eq_ok.mp h
    refine ⟨rfl, fun index mem => ?_⟩
    -- With an index at hand the lookup was made, and found nothing.
    have absent : c.objects txn id = none := by
      rw [objects_of_db hdb]
      have nonempty : c.indexes ≠ [] := List.ne_nil_of_mem mem
      simpa [oldObject, nonempty] using old
    rw [← absent, Function.update_eq_self]
    exact consistent index mem

/-- `put` binds the id to the new bytes, evicts what the unique indexes take for duplicates, and
leaves every index consistent. -/
theorem put_spec {c : NativeCollection} {txn txn' : NativeTxn} {id : Int64} {bytes : Bytes}
    (nodup : (c.indexes.map NativeIndex.db).Nodup) (consistent : Consistent xxh3_64 c txn)
    (h : c.put xxh3_64 txn id bytes = .ok txn') :
    Consistent xxh3_64 c txn' ∧
    ∃ others, Evicts (c.indexes.map (·.Conflict xxh3_64 bytes))
        (Function.update (c.objects txn) id none) others ∧
      c.objects txn' = Function.update others id (some bytes) := by
  simp only [put, bind_eq_ok, cursorDb_eq_ok, orPanic_eq_ok, pure_eq_ok] at h
  obtain ⟨db, hdb, txn₁, removed, object, parsed, txn₂, created, rfl⟩ := h
  obtain ⟨same, indexed⟩ := deleteOldEntries_spec nodup hdb consistent removed
  have objects₁ : c.objects (c.registerDetailed (txn₁.register (.object c.name id bytes)) id
      (c.oldObject txn db id) (some bytes)) = c.objects txn := by
    refine objects_congr ?_
    rw [primary_registerDetailed]
    exact same
  have rest : ∀ j, j ≠ id → c.objects (c.registerDetailed
      (txn₁.register (.object c.name id bytes)) id (c.oldObject txn db id) (some bytes)) j =
        Function.update (c.objects txn) id none j := by
    intro j hj
    rw [objects₁, Function.update_of_ne hj]
  have indexed₁ : IndexedBy xxh3_64 c.indexes (fun _ => Function.update (c.objects txn) id none)
      (c.registerDetailed (txn₁.register (.object c.name id bytes)) id
        (c.oldObject txn db id) (some bytes)) := by
    intro index mem
    rw [index_registerDetailed]
    exact indexed index mem
  obtain ⟨others, evicts, rest', indexed'⟩ := foldlM_createForObject nodup
    (List.nil_append _).symm parsed (Function.update_self ..) rest (by simp [IndexedBy]) indexed₁
    created
  have objects' : c.objects ((c.updateAutoIncrement txn₂ id).putObject db id bytes) =
      Function.update others id (some bytes) := by
    funext j
    rw [objects_of_db hdb, NativeTxn.get_putObject, Function.update_apply]
    split
    · rfl
    · rename_i hj
      rw [← rest' j hj, objects_of_db hdb]
      rfl
  refine ⟨fun index mem => ?_, others, evicts, objects'⟩
  simp only [objects']
  exact indexed' index mem

/-- The walk of `clear` fails on every content. -/
theorem iterPrimary_eq (txn : NativeTxn) (db : Db) :
    iterPrimary xxh3_64 txn db = fail (.dbError (-30781) "MDBX_BAD_VALSIZE") := by
  rw [iterPrimary, TxnCursor.iter_of_refuses (primaryDb (txn.primary db)).refuses_listCursor rfl]
  rfl

theorem foldl_clear (indexes : List NativeIndex) (txn : NativeTxn) :
    (indexes.foldl (fun txn index => index.clear txn) txn).primary = txn.primary ∧
    ∀ db, (indexes.foldl (fun txn index => index.clear txn) txn).index db =
      if db ∈ indexes.map NativeIndex.db then .empty else txn.index db := by
  induction indexes generalizing txn with
  | nil => simp
  | cons index indexes ih =>
    obtain ⟨primary, cleared⟩ := ih (index.clear txn)
    refine ⟨primary, fun db => ?_⟩
    rw [List.foldl_cons, cleared, NativeIndex.clear, NativeTxn.index_clearIndex,
      Function.update_apply]
    simp only [List.map_cons, List.mem_cons]
    by_cases head : db = index.db <;> by_cases tail : db ∈ indexes.map NativeIndex.db <;>
      simp only [head, tail, or_true, or_false, true_or, if_true, if_false, ite_self]

/-- `clear` goes through only without detailed watchers. -/
theorem clear_eq_ok {c : NativeCollection} {txn txn' : NativeTxn} :
    c.clear xxh3_64 txn = .ok txn' ↔ ∃ db, c.db = some db ∧ c.hasDetailedWatchers = false ∧
      txn' = c.indexes.foldl (fun txn index => index.clear txn)
        ((txn.register (.all c.name)).clearPrimary db) := by
  simp only [clear, bind_eq_ok, cursorDb_eq_ok, iterPrimary_eq]
  cases c.hasDetailedWatchers with
  | true => simp [fail, bind, Except.bind]
  | false =>
    simp only [Bool.false_eq_true, if_false, true_and]
    exact exists_congr fun db => and_congr_right' (pure_eq_ok.trans eq_comm)

/-- `clear` leaves no object and no entry. -/
theorem clear_spec {c : NativeCollection} {txn txn' : NativeTxn}
    (h : c.clear xxh3_64 txn = .ok txn') :
    c.objects txn' = (fun _ => none) ∧ ∀ index ∈ c.indexes, txn'.index index.db = .empty := by
  obtain ⟨db, hdb, -, rfl⟩ := clear_eq_ok.mp h
  obtain ⟨primary, cleared⟩ := foldl_clear c.indexes
    ((txn.register (.all c.name)).clearPrimary db)
  refine ⟨?_, fun index mem => ?_⟩
  · rw [objects_congr primary]
    funext id
    rw [objects_of_db hdb, NativeTxn.get_clearPrimary]
  · rw [cleared, if_pos (List.mem_map_of_mem mem)]

end NativeCollection

end IsarPlus.Native
