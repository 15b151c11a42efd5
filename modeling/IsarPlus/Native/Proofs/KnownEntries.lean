import IsarPlus.Native.Proofs.Runs

/-!
# Indexes that do not know every object

A migration that creates an index leaves the stored objects out of it (`schema_manager.rs:64-82`).
What the operations do to such an index: no entry is ever without its object, and an object that is
written is known from then on.
-/

namespace IsarPlus.Native.NativeCollection
open ByteBuffer OrderedStore SecondaryIndex

variable {xxh3_64 : Bytes → UInt64} {c : NativeCollection} {txn txn' : NativeTxn}
  {known : NativeIndex → Int64 → Prop}

/-- Every index holds exactly the entries of the objects that it knows. -/
def Tracked (xxh3_64 : Bytes → UInt64) (known : NativeIndex → Int64 → Prop) (c : NativeCollection)
    (txn : NativeTxn) : Prop :=
  ∀ index ∈ c.indexes, Tracks (known index) (index.keyOf xxh3_64) toIdBytes (c.objects txn)
    (txn.index index.db)

/-- The same while `put` stores an object: the indexes in `todo` have no object under its id, the
others have the new one. -/
def Putting (xxh3_64 : Bytes → UInt64) (known : NativeIndex → Int64 → Prop) (c : NativeCollection)
    (id : Int64) (bytes : Bytes) (todo : List NativeIndex) (txn : NativeTxn) : Prop :=
  ∀ index ∈ c.indexes, Tracks (known index) (index.keyOf xxh3_64) toIdBytes
    (Function.update (c.objects txn) id (if index ∈ todo then none else some bytes))
    (txn.index index.db)

/-! ## Removing objects -/

/-- What removing the entries of stored bytes does to every index. -/
theorem entries_of_deleteEntries {id : Int64} {object : IsarDeserializer} {bytes : Bytes}
    (nodup : (c.indexes.map NativeIndex.db).Nodup)
    (parsed : IsarDeserializer.fromBytes bytes = some object)
    (h : c.deleteEntries xxh3_64 txn id object = .ok txn') :
    txn'.primary = txn.primary ∧ ∀ index ∈ c.indexes, ∃ key, index.keyOf xxh3_64 bytes = some key ∧
      txn'.index index.db = (txn.index index.db).del key (toIdBytes id) := by
  obtain ⟨same, removed, -⟩ := foldlM_deleteForObject nodup h
  refine ⟨by rw [same], fun index mem => ?_⟩
  obtain ⟨key, containsNull, created, eq⟩ := removed index mem
  refine ⟨key, ?_, eq⟩
  simp [NativeIndex.keyOf, NativeIndex.entry_of_createKey parsed, created]

/-- What `delete` does to the objects and to every index. -/
theorem entries_of_delete {id : Int64} {found : Bool} (nodup : (c.indexes.map NativeIndex.db).Nodup)
    (h : c.delete xxh3_64 txn id = .ok (txn', found)) :
    c.objects txn' = Function.update (c.objects txn) id none ∧ ∀ index ∈ c.indexes,
      match c.objects txn id with
      | some bytes => ∃ key, index.keyOf xxh3_64 bytes = some key ∧
          txn'.index index.db = (txn.index index.db).del key (toIdBytes id)
      | none => txn'.index index.db = txn.index index.db := by
  simp only [delete, bind_eq_ok, cursorDb_eq_ok] at h
  obtain ⟨db, hdb, h⟩ := h
  split at h
  · rename_i bytes stored
    simp only [bind_eq_ok, orPanic_eq_ok, pure_eq_ok, Prod.mk.injEq] at h
    obtain ⟨object, parsed, txn₁, removed, rfl, rfl⟩ := h
    obtain ⟨same, entries⟩ := entries_of_deleteEntries nodup parsed removed
    refine ⟨?_, fun index mem => ?_⟩
    · funext j
      rw [objects_of_db hdb, objects_of_db hdb, NativeTxn.get_deleteObject, Function.update_apply]
      simp only [NativeTxn.get, same, primary_registerDetailed]
      rfl
    · rw [objects_of_db hdb, stored]
      obtain ⟨key, keyed, eq⟩ := entries index mem
      refine ⟨key, keyed, ?_⟩
      rw [NativeTxn.index_deleteObject, eq, index_registerDetailed]
      rfl
  · rename_i absent
    simp only [pure_eq_ok, Prod.mk.injEq] at h
    obtain ⟨rfl, rfl⟩ := h
    refine ⟨?_, fun index mem => ?_⟩
    · rw [objects_of_db hdb, ← absent, Function.update_eq_self]
    · rw [objects_of_db hdb, absent]

/-- Deleting keeps what is known. -/
theorem Tracked.delete {id : Int64} {found : Bool} (nodup : (c.indexes.map NativeIndex.db).Nodup)
    (tracked : Tracked xxh3_64 known c txn) (h : c.delete xxh3_64 txn id = .ok (txn', found)) :
    Tracked xxh3_64 known c txn' := by
  obtain ⟨objects, entries⟩ := entries_of_delete nodup h
  intro index mem
  have entry := entries index mem
  rw [objects]
  cases stored : c.objects txn id with
  | some bytes =>
    rw [stored] at entry
    obtain ⟨key, keyed, eq⟩ := entry
    rw [eq]
    exact (tracked index mem).del (fun _ _ => toIdBytes_injective) stored keyed
  | none =>
    rw [stored] at entry
    rw [entry, ← stored, Function.update_eq_self]
    exact tracked index mem

/-- Deleting another object while one is put. -/
theorem Putting.delete {id other : Int64} {bytes : Bytes} {found : Bool} {todo : List NativeIndex}
    (nodup : (c.indexes.map NativeIndex.db).Nodup)
    (putting : Putting xxh3_64 known c id bytes todo txn) (differ : other ≠ id)
    (h : c.delete xxh3_64 txn other = .ok (txn', found)) :
    Putting xxh3_64 known c id bytes todo txn' := by
  obtain ⟨objects, entries⟩ := entries_of_delete nodup h
  intro index mem
  have entry := entries index mem
  rw [objects, Function.update_comm differ]
  cases stored : c.objects txn other with
  | some o =>
    rw [stored] at entry
    obtain ⟨key, keyed, eq⟩ := entry
    rw [eq]
    refine (putting index mem).del (fun _ _ => toIdBytes_injective) ?_ keyed
    rw [Function.update_of_ne differ, stored]
  | none =>
    rw [stored] at entry
    have same : Function.update (Function.update (c.objects txn) id
        (if index ∈ todo then none else some bytes)) other none =
          Function.update (c.objects txn) id (if index ∈ todo then none else some bytes) := by
      rw [Function.update_eq_self_iff, Function.update_of_ne differ, stored]
    rw [entry, same]
    exact putting index mem

/-! ## Storing objects -/

section
variable {id : Int64} {bytes : Bytes}

/-- The object that a unique index binds to the new key is not the one that is put. -/
theorem Putting.deleteConflict {index : NativeIndex} {todo : List NativeIndex} {key : Bytes}
    {containsNull : Bool} (nodup : (c.indexes.map NativeIndex.db).Nodup)
    (putting : Putting xxh3_64 known c id bytes todo txn) (mem : index ∈ c.indexes)
    (waits : index ∈ todo)
    (h : index.deleteConflict txn key containsNull
      (fun txn conflict => (c.delete xxh3_64 txn conflict).map Prod.fst) = .ok txn') :
    Putting xxh3_64 known c id bytes todo txn' ∧ Within (c.objects txn') (c.objects txn) := by
  have unchanged (same : txn' = txn) : Putting xxh3_64 known c id bytes todo txn' ∧
      Within (c.objects txn') (c.objects txn) := by
    subst same
    exact ⟨putting, Within.refl _⟩
  unfold NativeIndex.deleteConflict at h
  split at h
  · split at h
    · rename_i idBytes found
      simp only [bind_eq_ok, orPanic_eq_ok] at h
      obtain ⟨conflict, decoded, h⟩ := h
      obtain ⟨⟨txn₁, removed⟩, deleted, rfl⟩ := map_eq_ok.mp h
      have tracks := putting index mem
      rw [if_pos waits] at tracks
      obtain ⟨i, o, rfl, -, stored, -⟩ := tracks.of_firstDup found
      obtain rfl : i = conflict := by simpa using decoded
      have differ : i ≠ id := by
        rintro rfl
        rw [Function.update_self] at stored
        cases stored
      refine ⟨putting.delete nodup differ deleted, ?_⟩
      rw [(entries_of_delete nodup deleted).1]
      exact Within.erase _ _
    · exact unchanged (pure_eq_ok.mp h).symm
  · exact unchanged (pure_eq_ok.mp h).symm

/-- The loop of `put` over the indexes that remain. -/
theorem Putting.createEntries {todo : List NativeIndex} {object : IsarDeserializer}
    (nodup : (c.indexes.map NativeIndex.db).Nodup) (knows : ∀ index, known index id)
    (parsed : IsarDeserializer.fromBytes bytes = some object) (sub : ∀ index ∈ todo, index ∈ c.indexes)
    (apart : (todo.map NativeIndex.db).Nodup)
    (putting : Putting xxh3_64 known c id bytes todo txn)
    (h : todo.foldlM (fun txn index => index.createForObject xxh3_64 txn id object
      fun txn conflict => (c.delete xxh3_64 txn conflict).map Prod.fst) txn = .ok txn') :
    Putting xxh3_64 known c id bytes [] txn' ∧ Within (c.objects txn') (c.objects txn) := by
  induction todo generalizing txn with
  | nil =>
    obtain rfl := pure_eq_ok.mp h
    exact ⟨putting, Within.refl _⟩
  | cons index todo ih =>
    simp only [List.foldlM_cons, bind_eq_ok] at h
    obtain ⟨txn₁, first, h⟩ := h
    simp only [NativeIndex.createForObject, bind_eq_ok, orPanic_eq_ok, pure_eq_ok] at first
    obtain ⟨⟨key, containsNull⟩, created, txn₀, cleared, rfl⟩ := first
    have keyed : index.keyOf xxh3_64 bytes = some key := by
      simp [NativeIndex.keyOf, NativeIndex.entry_of_createKey parsed, created]
    have mem := sub index List.mem_cons_self
    obtain ⟨cleared, within⟩ := putting.deleteConflict nodup mem List.mem_cons_self cleared
    obtain ⟨fresh, apart⟩ := List.nodup_cons.mp apart
    have next : Putting xxh3_64 known c id bytes todo
        (txn₀.putEntry index.db key (toIdBytes id)) := by
      intro index' mem'
      have tracks := cleared index' mem'
      rw [NativeTxn.index_putEntry]
      show Tracks _ _ _ (Function.update (c.objects txn₀) id _) _
      by_cases same : index'.db = index.db
      · obtain rfl := List.inj_on_of_nodup_map nodup mem' mem same
        have done : index' ∉ todo := fun later => fresh (List.mem_map_of_mem later)
        rw [if_pos List.mem_cons_self] at tracks
        rw [if_neg done, Function.update_self]
        have stored := tracks.put (knows index') (Function.update_self ..) keyed
        rwa [Function.update_idem] at stored
      · have other : index' ∈ index :: todo ↔ index' ∈ todo := by
          rw [List.mem_cons]
          exact or_iff_right fun eq => same (congrArg NativeIndex.db eq)
        simp only [other] at tracks
        rw [Function.update_of_ne same]
        exact tracks
    obtain ⟨putting', within'⟩ := ih (fun index mem => sub index (List.mem_cons_of_mem _ mem)) apart
      next h
    exact ⟨putting', within'.trans within⟩

/-- The old object is taken out of the indexes before the new one is stored. -/
theorem Tracked.deleteOldEntries {db : Db} (nodup : (c.indexes.map NativeIndex.db).Nodup)
    (hdb : c.db = some db) (tracked : Tracked xxh3_64 known c txn)
    (h : c.deleteOldEntries xxh3_64 txn id (c.oldObject txn db id) = .ok txn') :
    txn'.primary = txn.primary ∧
      Putting xxh3_64 (fun index j => j = id ∨ known index j) c id bytes c.indexes txn' := by
  -- with no object under the id nothing more is known
  have widen (index : NativeIndex) (m : MultiMap Bytes Bytes)
      (tracks : Tracks (known index) (index.keyOf xxh3_64) toIdBytes
        (Function.update (c.objects txn) id none) m) :
      Tracks (fun j => j = id ∨ known index j) (index.keyOf xxh3_64) toIdBytes
        (Function.update (c.objects txn) id none) m := by
    refine tracks.congr fun j o stored => (or_iff_right ?_).symm
    rintro rfl
    rw [Function.update_self] at stored
    cases stored
  cases old : c.oldObject txn db id with
  | some oldBytes =>
    simp only [old, NativeCollection.deleteOldEntries, bind_eq_ok, orPanic_eq_ok] at h
    obtain ⟨object, parsed, removed⟩ := h
    have stored : c.objects txn id = some oldBytes := by
      rw [objects_of_db hdb]
      unfold oldObject at old
      split at old
      · exact old
      · cases old
    obtain ⟨same, entries⟩ := entries_of_deleteEntries nodup parsed removed
    refine ⟨same, fun index mem => ?_⟩
    obtain ⟨key, keyed, eq⟩ := entries index mem
    rw [if_pos mem, eq, objects_congr same]
    exact widen index _ ((tracked index mem).del (fun _ _ => toIdBytes_injective) stored keyed)
  | none =>
    rw [old] at h
    obtain rfl : txn = txn' := pure_eq_ok.mp h
    refine ⟨rfl, fun index mem => ?_⟩
    have absent : c.objects txn id = none := by
      rw [objects_of_db hdb]
      have nonempty : c.indexes ≠ [] := List.ne_nil_of_mem mem
      simpa [oldObject, nonempty] using old
    rw [if_pos mem]
    refine widen index _ ?_
    rw [← absent, Function.update_eq_self]
    exact tracked index mem

/-- Putting keeps what is known, and makes the object known to every index. -/
theorem Tracked.put (nodup : (c.indexes.map NativeIndex.db).Nodup)
    (tracked : Tracked xxh3_64 known c txn) (h : c.put xxh3_64 txn id bytes = .ok txn') :
    Tracked xxh3_64 (fun index j => j = id ∨ known index j) c txn' ∧
      ∀ j o, j ≠ id → c.objects txn' j = some o → c.objects txn j = some o := by
  simp only [NativeCollection.put, bind_eq_ok, cursorDb_eq_ok, orPanic_eq_ok, pure_eq_ok] at h
  obtain ⟨db, hdb, txn₁, removed, object, parsed, txn₂, created, rfl⟩ := h
  obtain ⟨same, putting⟩ := tracked.deleteOldEntries nodup hdb removed
  have objects₁ : c.objects (c.registerDetailed (txn₁.register (.object c.name id bytes)) id
      (c.oldObject txn db id) (some bytes)) = c.objects txn := by
    refine objects_congr ?_
    rw [primary_registerDetailed]
    exact same
  have start : Putting xxh3_64 (fun index j => j = id ∨ known index j) c id bytes c.indexes
      (c.registerDetailed (txn₁.register (.object c.name id bytes)) id (c.oldObject txn db id)
        (some bytes)) := by
    intro index mem
    rw [objects₁, index_registerDetailed, ← objects_congr same]
    exact putting index mem
  obtain ⟨done, within⟩ := start.createEntries nodup (fun _ => Or.inl rfl) parsed
    (fun _ mem => mem) nodup created
  have objects' : c.objects ((c.updateAutoIncrement txn₂ id).putObject db id bytes) =
      Function.update (c.objects txn₂) id (some bytes) := by
    funext j
    rw [objects_of_db hdb, NativeTxn.get_putObject, Function.update_apply, objects_of_db hdb]
    rfl
  refine ⟨fun index mem => ?_, fun j o differ stored => ?_⟩
  · rw [objects']
    exact done index mem
  · rw [objects', Function.update_of_ne differ] at stored
    have before := within j o stored
    rwa [objects₁] at before

end

/-! ## Runs -/

/-- What a run that began at `start` knows at least: what was known before, and what has changed. -/
def KnowsSince (known : NativeIndex → Int64 → Prop) (start : Int64 → Option Bytes)
    (table : Int64 → Option Bytes) (known' : NativeIndex → Int64 → Prop) : Prop :=
  ∀ index id o, table id = some o → known index id ∨ start id ≠ some o → known' index id

theorem preserved_tracked (nodup : (c.indexes.map NativeIndex.db).Nodup)
    (known : NativeIndex → Int64 → Prop) (start : Int64 → Option Bytes) :
    Preserved xxh3_64 c (fun _ _ _ => True) fun txn => ∃ known',
      Tracked xxh3_64 known' c txn ∧ KnowsSince known start (c.objects txn) known' where
  put := by
    rintro txn txn' id bytes ⟨known', tracked, since⟩ - h
    obtain ⟨tracked', others⟩ := tracked.put nodup h
    refine ⟨_, tracked', fun index j o stored cause => ?_⟩
    by_cases same : j = id
    · exact Or.inl same
    · exact Or.inr (since index j o (others j o same stored) cause)
  delete := by
    rintro txn txn' id found ⟨known', tracked, since⟩ h
    refine ⟨known', tracked.delete nodup h, fun index j o stored cause => ?_⟩
    rw [(entries_of_delete nodup h).1] at stored
    exact since index j o (Within.erase _ _ j o stored) cause
  clear := by
    rintro txn txn' - h
    obtain ⟨objects, entries⟩ := clear_spec h
    refine ⟨fun _ _ => True, fun index mem => ?_, fun _ _ _ _ _ => trivial⟩
    rw [objects, entries index mem]
    exact Tracks.empty fun _ _ => rfl

/-- A run keeps what is known, and every index knows the objects that the run has changed. -/
theorem Tracked.run {operations : List Operation} (nodup : (c.indexes.map NativeIndex.db).Nodup)
    (tracked : Tracked xxh3_64 known c txn) (h : c.run xxh3_64 txn operations = .ok txn') :
    ∃ known', Tracked xxh3_64 known' c txn' ∧
      KnowsSince known (c.objects txn) (c.objects txn') known' :=
  (preserved_tracked nodup known (c.objects txn)).run
    ⟨known, tracked, fun _ _ _ stored cause => cause.resolve_right fun differ => differ stored⟩
    (meets_of_forall (fun _ _ _ => trivial) txn operations) h

end IsarPlus.Native.NativeCollection
