import IsarPlus.Native.Proofs.Entries

/-!
# Operations that succeed

Where every stored object has a key in every index, `put` and `delete` neither panic nor fail.
-/

namespace IsarPlus.Native
open ByteBuffer OrderedStore

/-- The key of these bytes can be made in every index. -/
def NativeCollection.Indexable (c : NativeCollection) (bytes : Bytes) : Prop :=
  ∃ object, IsarDeserializer.fromBytes bytes = some object ∧
    ∀ index ∈ c.indexes, (index.tuple object).isSome

instance (c : NativeCollection) (bytes : Bytes) : Decidable (c.Indexable bytes) :=
  inferInstanceAs (Decidable (∃ object ∈ IsarDeserializer.fromBytes bytes,
    ∀ index ∈ c.indexes, (index.tuple object).isSome))

/-- All stored objects have keys, and all entries are ids. -/
structure NativeCollection.Ready (c : NativeCollection) (txn : NativeTxn) : Prop where
  objects : ∀ id bytes, c.objects txn id = some bytes → c.Indexable bytes
  ids : ∀ index ∈ c.indexes, ∀ key value, (txn.index index.db).Has key value → value.length = 8

namespace NativeCollection

variable (xxh3_64 : Bytes → UInt64) {c : NativeCollection} {txn : NativeTxn} (id : Int64)
  {object : IsarDeserializer}

theorem createKey_isSome {index : NativeIndex} (h : (index.tuple object).isSome) :
    ∃ key containsNull, index.createKey xxh3_64 object = some (key, containsNull) := by
  obtain ⟨values, eq⟩ := Option.isSome_iff_exists.mp h
  exact ⟨_, _, by rw [NativeIndex.createKey_eq, eq]; rfl⟩

/-! ## Entries -/

/-- Fewer entries and the same objects. -/
structure Shrinks (c : NativeCollection) (txn txn' : NativeTxn) : Prop where
  primary : txn'.primary = txn.primary
  entries : ∀ db key value, (txn'.index db).Has key value → (txn.index db).Has key value

theorem Shrinks.ready {txn' : NativeTxn} (h : c.Shrinks txn txn') (ready : c.Ready txn) :
    c.Ready txn' where
  objects id bytes stored := by
    refine ready.objects id bytes ?_
    rwa [objects_congr h.primary] at stored
  ids index mem key value has := ready.ids index mem key value (h.entries _ _ _ has)

theorem deleteForObject_ok {index : NativeIndex} (c : NativeCollection)
    (keyed : (index.tuple object).isSome) :
    ∃ txn', index.deleteForObject xxh3_64 txn id object = .ok txn' ∧ c.Shrinks txn txn' := by
  obtain ⟨key, containsNull, created⟩ := createKey_isSome xxh3_64 keyed
  by_cases has : (txn.index index.db).Has key (toIdBytes id)
  · refine ⟨txn.deleteEntry index.db key (toIdBytes id), ?_, rfl, fun db key' value has' => ?_⟩
    · simp [NativeIndex.deleteForObject, created, orPanic, has, bind, Except.bind, pure,
        Except.pure]
    · rw [NativeTxn.index_deleteEntry, Function.update_apply] at has'
      split at has'
      · rename_i same
        subst same
        exact (MultiMap.has_del.mp has').2
      · exact has'
  · refine ⟨txn, ?_, rfl, fun _ _ _ has' => has'⟩
    simp [NativeIndex.deleteForObject, created, orPanic, has, bind, Except.bind, pure, Except.pure]

/-- A loop in which every turn succeeds. -/
theorem foldlM_ok {α β : Type} {f : β → α → Result β} {l : List α} (Inv : β → Prop)
    (turn : ∀ b a, a ∈ l → Inv b → ∃ b', f b a = .ok b' ∧ Inv b') {b : β} (start : Inv b) :
    ∃ b', l.foldlM f b = .ok b' ∧ Inv b' := by
  induction l generalizing b with
  | nil => exact ⟨b, rfl, start⟩
  | cons a l ih =>
    obtain ⟨b₁, first, inv⟩ := turn b a List.mem_cons_self start
    obtain ⟨b', rest, inv'⟩ := ih (fun b a mem => turn b a (List.mem_cons_of_mem _ mem)) inv
    exact ⟨b', by rw [List.foldlM_cons, first]; exact rest, inv'⟩

theorem deleteEntries_ok (txn : NativeTxn)
    (keyed : ∀ index ∈ c.indexes, (index.tuple object).isSome) :
    ∃ txn', c.deleteEntries xxh3_64 txn id object = .ok txn' ∧ c.Shrinks txn txn' := by
  refine foldlM_ok (c.Shrinks txn) (fun txn₁ index mem shrinks => ?_) ⟨rfl, fun _ _ _ has => has⟩
  obtain ⟨txn', done, more⟩ := deleteForObject_ok xxh3_64 id c (keyed index mem)
  exact ⟨txn', done, more.primary.trans shrinks.primary,
    fun db key value has => shrinks.entries _ _ _ (more.entries _ _ _ has)⟩

theorem ready_registerDetailed (ready : c.Ready txn) (old new : Option Bytes) :
    c.Ready (c.registerDetailed txn id old new) where
  objects i bytes stored := by
    refine ready.objects i bytes ?_
    rwa [objects_congr (primary_registerDetailed c txn id old new)] at stored
  ids index mem key value has := by
    rw [index_registerDetailed] at has
    exact ready.ids index mem key value has

/-- `delete` succeeds. -/
theorem delete_ok {db : Db} (hdb : c.db = some db) (ready : c.Ready txn) :
    ∃ txn' found, c.delete xxh3_64 txn id = .ok (txn', found) ∧ c.Ready txn' := by
  have cursor : c.cursorDb = .ok db := cursorDb_eq_ok.mpr hdb
  cases stored : txn.get db id with
  | none => exact ⟨txn, false, by simp [delete, cursor, stored, bind, Except.bind, pure, Except.pure],
      ready⟩
  | some bytes =>
    obtain ⟨object, parsed, keyed⟩ := ready.objects id bytes (by rwa [objects_of_db hdb])
    have registered : c.Ready (txn.register (.object c.name id bytes)) :=
      ⟨ready.objects, ready.ids⟩
    have registered := ready_registerDetailed id registered (some bytes) none
    obtain ⟨txn₁, removed, shrinks⟩ := deleteEntries_ok xxh3_64 id
      (c.registerDetailed (txn.register (.object c.name id bytes)) id (some bytes) none) keyed
    have ready₁ := shrinks.ready registered
    refine ⟨txn₁.deleteObject db id, true, ?_, fun i bytes' stored' => ?_, ready₁.ids⟩
    · simp [delete, cursor, stored, parsed, orPanic, removed, bind, Except.bind, pure, Except.pure]
    · rw [objects_of_db hdb, NativeTxn.get_deleteObject] at stored'
      split at stored'
      · cases stored'
      · exact ready₁.objects i bytes' (by rwa [objects_of_db hdb])

/-! ## Puts -/

theorem createForObject_ok {index : NativeIndex} {db : Db} (hdb : c.db = some db)
    (mem : index ∈ c.indexes) (keyed : (index.tuple object).isSome) (ready : c.Ready txn) :
    ∃ txn', index.createForObject xxh3_64 txn id object
        (fun txn conflict => (c.delete xxh3_64 txn conflict).map Prod.fst) = .ok txn' ∧
      c.Ready txn' := by
  obtain ⟨key, containsNull, created⟩ := createKey_isSome xxh3_64 keyed
  have evicted : ∃ txn₁, index.deleteConflict txn key containsNull
      (fun txn conflict => (c.delete xxh3_64 txn conflict).map Prod.fst) = .ok txn₁ ∧
      c.Ready txn₁ := by
    unfold NativeIndex.deleteConflict
    split
    · cases found : (txn.index index.db).firstDup key with
      | none => exact ⟨txn, rfl, ready⟩
      | some idBytes =>
        have length := ready.ids index mem key idBytes (MultiMap.has_of_firstDup found)
        obtain ⟨txn₁, removed, deleted, ready₁⟩ := delete_ok xxh3_64 _ hdb ready
        refine ⟨txn₁, ?_, ready₁⟩
        simp only [toId, if_pos length, orPanic, bind, Except.bind]
        rw [deleted]
        rfl
    · exact ⟨txn, rfl, ready⟩
  obtain ⟨txn₁, eq, ready₁⟩ := evicted
  refine ⟨txn₁.putEntry index.db key (toIdBytes id), ?_, fun i bytes stored => ?_,
    fun index' mem' key' value has => ?_⟩
  · simp [NativeIndex.createForObject, created, orPanic, eq, bind, Except.bind, pure, Except.pure]
  · exact ready₁.objects i bytes stored
  · rw [NativeTxn.index_putEntry, Function.update_apply] at has
    split at has
    · rename_i same
      rcases MultiMap.has_put.mp has with new | old
      · rw [new.2]
        exact length_leBytes 8 _
      · exact ready₁.ids index' mem' key' value (same ▸ old)
    · exact ready₁.ids index' mem' key' value has

theorem createEntries_ok {db : Db} (hdb : c.db = some db)
    (keyed : ∀ index ∈ c.indexes, (index.tuple object).isSome) (ready : c.Ready txn) :
    ∃ txn', c.createEntries xxh3_64 txn id object = .ok txn' ∧ c.Ready txn' :=
  foldlM_ok c.Ready (fun _ index mem ready =>
    createForObject_ok xxh3_64 id hdb mem (keyed index mem) ready)
    ready

/-- `put` succeeds with every object that has a key in every index. -/
theorem put_ok {db : Db} {bytes : Bytes} (hdb : c.db = some db) (ready : c.Ready txn)
    (new : c.Indexable bytes) :
    ∃ txn', c.put xxh3_64 txn id bytes = .ok txn' ∧ c.Ready txn' ∧
      c.objects txn' id = some bytes := by
  have cursor : c.cursorDb = .ok db := cursorDb_eq_ok.mpr hdb
  obtain ⟨object, parsed, keyed⟩ := new
  have removed : ∃ txn₁, c.deleteOldEntries xxh3_64 txn id (c.oldObject txn db id) = .ok txn₁ ∧
      c.Ready txn₁ := by
    cases old : c.oldObject txn db id with
    | none => exact ⟨txn, rfl, ready⟩
    | some oldBytes =>
      have stored : c.objects txn id = some oldBytes := by
        unfold oldObject at old
        split at old
        · rwa [objects_of_db hdb]
        · cases old
      obtain ⟨oldObject, oldParsed, oldKeyed⟩ := ready.objects id oldBytes stored
      obtain ⟨txn₁, done, shrinks⟩ := deleteEntries_ok xxh3_64 id txn oldKeyed
      refine ⟨txn₁, ?_, shrinks.ready ready⟩
      simp [deleteOldEntries, oldParsed, orPanic, done, bind, Except.bind]
  obtain ⟨txn₁, removed, ready₁⟩ := removed
  have registered : c.Ready (txn₁.register (.object c.name id bytes)) :=
    ⟨ready₁.objects, ready₁.ids⟩
  have registered := ready_registerDetailed id registered (c.oldObject txn db id) (some bytes)
  obtain ⟨txn₂, created, ready₂⟩ := createEntries_ok xxh3_64 id hdb keyed registered
  refine ⟨(c.updateAutoIncrement txn₂ id).putObject db id bytes, ?_,
    ⟨fun i bytes' stored => ?_, ready₂.ids⟩, ?_⟩
  · simp [put, cursor, removed, parsed, orPanic, created, bind, Except.bind, pure, Except.pure]
  · rw [objects_of_db hdb, NativeTxn.get_putObject] at stored
    split at stored
    · cases stored
      exact ⟨object, parsed, keyed⟩
    · exact ready₂.objects i bytes' (by rw [objects_of_db hdb]; exact stored)
  · rw [objects_of_db hdb, NativeTxn.get_putObject, if_pos rfl]

end NativeCollection

end IsarPlus.Native
