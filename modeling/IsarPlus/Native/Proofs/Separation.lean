import IsarPlus.Native.Database
import IsarPlus.Native.Proofs.FailedMigration
import IsarPlus.Native.Proofs.Runs
import Mathlib

/-!
# Collections that do not share storage

The name of an index database can be read in two ways where a collection's name goes on with the
beginning of an index's name. Where it cannot, a collection's transactions and migrations stay
within its own databases.
-/

namespace IsarPlus.Native
open ByteBuffer OrderedStore

/-! ## Names -/

theorem toList_indexDb (colName indexName : String) :
    (indexDb colName indexName).toList = '_' :: colName.toList ++ '_' :: indexName.toList := by
  simp [indexDb]

/-- Two names of index databases are equal only if they are read alike, or one collection's name
goes on with an index's. -/
theorem indexDb_eq_iff {c c' i i' : String} : indexDb c i = indexDb c' i' ↔
    (c = c' ∧ i = i') ∨ (∃ rest, c' = c ++ "_" ++ rest ∧ i = rest ++ "_" ++ i') ∨
      ∃ rest, c = c' ++ "_" ++ rest ∧ i' = rest ++ "_" ++ i := by
  constructor
  · intro same
    have lists := congrArg String.toList same
    rw [toList_indexDb, toList_indexDb, List.cons_append, List.cons_append, List.cons_inj_right,
      List.append_eq_append_iff] at lists
    rcases lists with ⟨t, name, index⟩ | ⟨t, name, index⟩
    · cases t with
      | nil =>
        rw [List.append_nil] at name
        rw [List.nil_append, List.cons_inj_right] at index
        exact Or.inl ⟨String.toList_inj.mp name.symm, String.toList_inj.mp index⟩
      | cons head t =>
        rw [List.cons_append, List.cons.injEq] at index
        obtain ⟨rfl, index⟩ := index
        refine Or.inr (Or.inl ⟨String.ofList t, ?_, ?_⟩)
        · apply String.toList_inj.mp
          simp [name]
        · apply String.toList_inj.mp
          simp [index]
    · cases t with
      | nil =>
        rw [List.append_nil] at name
        rw [List.nil_append, List.cons_inj_right] at index
        exact Or.inl ⟨String.toList_inj.mp name, String.toList_inj.mp index.symm⟩
      | cons head t =>
        rw [List.cons_append, List.cons.injEq] at index
        obtain ⟨rfl, index⟩ := index
        refine Or.inr (Or.inr ⟨String.ofList t, ?_, ?_⟩)
        · apply String.toList_inj.mp
          simp [name]
        · apply String.toList_inj.mp
          simp [index]
  · rintro (⟨rfl, rfl⟩ | ⟨rest, rfl, rfl⟩ | ⟨rest, rfl, rfl⟩)
    · rfl
    · simp [indexDb, String.append_assoc]
    · simp [indexDb, String.append_assoc]

theorem ne_extended (name rest : String) : name ≠ name ++ "_" ++ rest := by
  intro same
  have length := congrArg (fun s => s.toList.length) same
  simp only [String.toList_append, List.length_append] at length
  have one : "_".toList.length = 1 := rfl
  omega

theorem indexDb_injective (c : String) : Function.Injective (indexDb c) := by
  intro i i' same
  rcases indexDb_eq_iff.mp same with ⟨-, same⟩ | ⟨rest, name, -⟩ | ⟨rest, name, -⟩
  · exact same
  · exact absurd name (ne_extended c rest)
  · exact absurd name (ne_extended c rest)

theorem indexDb_ne_info (c i : String) : indexDb c i ≠ "_info" := by
  intro same
  have lists := congrArg String.toList same
  rw [toList_indexDb, List.cons_append] at lists
  have inside : '_' ∈ c.toList ++ '_' :: i.toList := by simp
  rw [(List.cons.inj lists).2] at inside
  exact absurd inside (by decide)

/-- Databases of one name are those of one index, in collections that are told apart. -/
theorem unambiguous_iff {schemas : List IsarSchema} (names : (schemas.map IsarSchema.name).Nodup) :
    Unambiguous schemas ↔ ∀ c ∈ schemas, ∀ c' ∈ schemas, c ≠ c' → ∀ index ∈ c.indexes,
      ∀ index' ∈ c'.indexes, indexDb c.name index.name ≠ indexDb c'.name index'.name := by
  constructor
  · intro unambiguous c mem c' mem' differ index there index' there' same
    rcases indexDb_eq_iff.mp same with ⟨same, -⟩ | ⟨rest, name, eq⟩ | ⟨rest, name, eq⟩
    · exact differ (List.inj_on_of_nodup_map names mem mem' same)
    · exact unambiguous c mem c' mem' index there index' there' rest name eq
    · exact unambiguous c' mem' c mem index' there' index there rest name eq
  · intro differ c mem c' mem' index there index' there' rest name eq
    apply differ c mem c' mem' _ index there index' there'
    · exact indexDb_eq_iff.mpr (Or.inr (Or.inl ⟨rest, name, eq⟩))
    · rintro rfl
      exact ne_extended c.name rest name

theorem head?_name_of_verify {schema : IsarSchema} {collections : List IsarSchema}
    (h : schema.verify collections = .ok ()) : schema.name.toList.head? ≠ some '_' := by
  obtain ⟨_, name, -⟩ := bind_eq_ok.mp h
  exact IsarSchema.head?_of_verifyName name

theorem head?_indexDb (c i : String) : (indexDb c i).toList.head? = some '_' := by
  rw [toList_indexDb]
  rfl

/-- The database names of verified schemas are pairwise different exactly if they can be read in one
way only. -/
theorem databaseNames_nodup_iff {schemas : List IsarSchema}
    (verified : IsarSchema.verifySchemas schemas = .ok ())
    (names : (schemas.map IsarSchema.name).Nodup) :
    (databaseNames schemas).Nodup ↔ Unambiguous schemas := by
  have head (c : IsarSchema) (mem : c ∈ schemas) : c.name.toList.head? ≠ some '_' :=
    head?_name_of_verify (IsarSchema.forM_eq_ok verified c mem)
  have info : "_info" ∉ schemas.map IsarSchema.name ++
      schemas.flatMap fun c => c.indexes.map fun index => indexDb c.name index.name := by
    intro listed
    rcases List.mem_append.mp listed with primary | secondary
    · obtain ⟨c, mem, same⟩ := List.mem_map.mp primary
      exact head c mem (by rw [same]; rfl)
    · obtain ⟨c, -, listed⟩ := List.mem_flatMap.mp secondary
      obtain ⟨index, -, same⟩ := List.mem_map.mp listed
      exact indexDb_ne_info c.name index.name same
  have apart : (schemas.map IsarSchema.name).Disjoint
      (schemas.flatMap fun c => c.indexes.map fun index => indexDb c.name index.name) := by
    intro name primary secondary
    obtain ⟨c, mem, rfl⟩ := List.mem_map.mp primary
    obtain ⟨c', -, listed⟩ := List.mem_flatMap.mp secondary
    obtain ⟨index, -, same⟩ := List.mem_map.mp listed
    exact head c mem (same ▸ head?_indexDb c'.name index.name)
  have own (c : IsarSchema) (mem : c ∈ schemas) :
      (c.indexes.map fun index => indexDb c.name index.name).Nodup := by
    have indexes := (IsarSchema.verified_of_verifySchemas verified c mem).indexes
    apply List.Nodup.map_on _ indexes.of_map
    intro index there index' there' same
    exact List.inj_on_of_nodup_map indexes there there' (indexDb_injective c.name same)
  rw [databaseNames, List.nodup_cons, List.nodup_append', unambiguous_iff names,
    List.nodup_flatMap]
  constructor
  · rintro ⟨-, -, ⟨-, pairwise⟩, -⟩ c mem c' mem' differ index there index' there' same
    have symm : Std.Symm (Function.onFun List.Disjoint fun c : IsarSchema =>
        c.indexes.map fun index => indexDb c.name index.name) := ⟨fun _ _ h => h.symm⟩
    apply pairwise.forall mem mem' differ (List.mem_map_of_mem there)
    rw [same]
    exact List.mem_map_of_mem there'
  · intro differ
    refine ⟨info, names, ⟨own, ?_⟩, apart⟩
    apply names.of_map.pairwise_of_forall_ne
    intro c mem c' mem' other name listed listed'
    obtain ⟨index, there, rfl⟩ := List.mem_map.mp listed
    obtain ⟨index', there', same⟩ := List.mem_map.mp listed'
    exact differ c mem c' mem' other index there index' there' same.symm

/-! ## Transactions -/

/-- Nothing but the databases of the collection changes. -/
structure NativeCollection.Within (c : NativeCollection) (txn txn' : NativeTxn) : Prop where
  primary : ∀ db, c.db ≠ some db → txn'.primary db = txn.primary db
  index : ∀ db, db ∉ c.indexes.map NativeIndex.db → txn'.index db = txn.index db

namespace NativeCollection.Within

variable {xxh3_64 : Bytes → UInt64} {c : NativeCollection} {txn txn₁ txn' : NativeTxn} {db : Db}

theorem refl (c : NativeCollection) (txn : NativeTxn) : c.Within txn txn :=
  ⟨fun _ _ => rfl, fun _ _ => rfl⟩

theorem trans (first : c.Within txn txn₁) (second : c.Within txn₁ txn') : c.Within txn txn' where
  primary db other := (second.primary db other).trans (first.primary db other)
  index db other := (second.index db other).trans (first.index db other)

/-- Every write of an operation is to a database of the collection. -/
theorem preservedByWrites (c : NativeCollection) (txn : NativeTxn) :
    PreservedByWrites c (c.Within txn) where
  aside within primary index := by
    refine within.trans ⟨fun db _ => ?_, fun db _ => ?_⟩
    · rw [primary]
    · rw [index]
  objects within hdb := by
    refine within.trans ⟨fun db other => Function.update_of_ne ?_ .., fun _ _ => rfl⟩
    rintro rfl
    exact other hdb
  putEntry within mem := by
    refine within.trans ⟨fun _ _ => rfl, fun db other => ?_⟩
    rw [NativeTxn.index_putEntry, Function.update_of_ne]
    rintro rfl
    exact other (List.mem_map_of_mem mem)
  deleteEntry within mem := by
    refine within.trans ⟨fun _ _ => rfl, fun db other => ?_⟩
    rw [NativeTxn.index_deleteEntry, Function.update_of_ne]
    rintro rfl
    exact other (List.mem_map_of_mem mem)
  clearIndex within mem := by
    refine within.trans ⟨fun _ _ => rfl, fun db other => ?_⟩
    rw [NativeTxn.index_clearIndex, Function.update_of_ne]
    rintro rfl
    exact other (List.mem_map_of_mem mem)

/-- A transaction stays within the databases of its collection. -/
theorem run {operations : List Operation} (h : c.run xxh3_64 txn operations = .ok txn') :
    c.Within txn txn' :=
  (preservedByWrites c txn).run (refl c txn) h

end NativeCollection.Within

/-! ## Migrations -/

theorem Storage.find_info_of_mem {s : Storage} {c : IsarSchema} (mem : c ∈ s.schemas) :
    s.info.find c.name = some c := by
  obtain ⟨e, listed, rfl⟩ := List.mem_map.mp mem
  rw [s.named e listed]
  exact SortedMap.mem_entries.mp listed

theorem Storage.mem_of_find_info {s : Storage} {name : String} {c : IsarSchema}
    (found : s.info.find name = some c) : c ∈ s.schemas ∧ c.name = name := by
  have listed := SortedMap.mem_entries.mpr found
  exact ⟨List.mem_map_of_mem listed, s.named _ listed⟩

theorem Storage.nodup_names (s : Storage) : (s.schemas.map IsarSchema.name).Nodup := by
  have names : s.schemas.map IsarSchema.name = s.info.entries.map Prod.fst := by
    rw [Storage.schemas, List.map_map]
    exact List.map_congr_left fun e listed => s.named e listed
  rw [names]
  exact List.pairwise_map.mpr (s.info.sorted.imp fun lt => ne_of_lt lt)

section
variable {refused : TxnFaults} {s s' s₁ : Storage}

theorem objects_dropPrimary (s : Storage) {db db' : Db} (other : db' ≠ db) :
    (s.dropPrimary db).objects db' = s.objects db' := by
  simp [Storage.objects, Storage.dropPrimary, other]

/-- What is left where a stored collection is removed. -/
structure Removed (c : IsarSchema) (s s' : Storage) : Prop where
  info : ∀ name, s'.info.find name = if name = c.name then none else s.info.find name
  objects : ∀ db, db ≠ c.name → s'.objects db = s.objects db
  entries : ∀ db, db ∉ c.indexes.map (fun index => indexDb c.name index.name) →
    s'.entries db = s.entries db

theorem removed_of_deleteCollection {c : IsarSchema}
    (h : deleteCollection refused s c = .ok s') : Removed c s s' := by
  obtain ⟨s₁, opened, h⟩ := bind_eq_ok.mp h
  obtain ⟨_, -, h⟩ := bind_eq_ok.mp h
  obtain ⟨s₂, dropped, h⟩ := bind_eq_ok.mp h
  obtain ⟨_, -, h⟩ := bind_eq_ok.mp h
  obtain rfl := pure_eq_ok.mp h
  have first := leaves_openDb opened
  have dropped : (c.indexes.map IndexSchema.name).foldlM
      (fun s index => dropIndexDb refused s c.name index) (s₁.dropPrimary c.name) = .ok s₂ := by
    rw [List.foldlM_map]
    exact dropped
  have second := leaves_dropIndexes dropped
  refine ⟨fun name => ?_, fun db other => ?_, fun db other => ?_⟩
  · show (s₂.info.erase c.name).find name = _
    rw [SortedMap.find_erase, second.info]
    show (if name = c.name then none else s₁.info.find name) = _
    rw [first.info]
  · show s₂.objects db = _
    rw [second.objects, objects_dropPrimary s₁ other, first.objects]
  · show s₂.entries db = _
    rw [List.map_map] at second
    have absent : db ∉ c.indexes.map (indexDb c.name ∘ IndexSchema.name) := other
    rw [second.entries, if_neg absent]
    exact (first.entries db).trans (by simp)

/-- What is left where stored collections are removed. -/
structure RemovedAll (removed : List IsarSchema) (s s' : Storage) : Prop where
  info : ∀ name, s'.info.find name =
    if name ∈ removed.map IsarSchema.name then none else s.info.find name
  objects : ∀ db, db ∉ removed.map IsarSchema.name → s'.objects db = s.objects db
  entries : ∀ db, (∀ c ∈ removed, db ∉ c.indexes.map fun index => indexDb c.name index.name) →
    s'.entries db = s.entries db

theorem removed_of_foldlM {removed : List IsarSchema}
    (h : removed.foldlM (deleteCollection refused) s = .ok s') : RemovedAll removed s s' := by
  induction removed generalizing s with
  | nil =>
    obtain rfl := pure_eq_ok.mp h
    exact ⟨fun _ => by simp, fun _ _ => rfl, fun _ _ => rfl⟩
  | cons c removed ih =>
    obtain ⟨s₁, first, rest⟩ := bind_eq_ok.mp h
    have one := removed_of_deleteCollection first
    have others := ih rest
    refine ⟨fun name => ?_, fun db absent => ?_, fun db absent => ?_⟩
    · rw [others.info, one.info, List.map_cons]
      by_cases same : name = c.name
      · simp [same]
      · simp [same]
    · rw [List.map_cons, List.mem_cons, not_or] at absent
      exact (others.objects db absent.2).trans (one.objects db absent.1)
    · have first := one.entries db (absent c List.mem_cons_self)
      exact (others.entries db fun c mem => absent c (List.mem_cons_of_mem _ mem)).trans first

theorem removedAll_of_removeCollections {existingSchemas schemas : List IsarSchema}
    (h : removeCollections refused existingSchemas schemas s = .ok s') :
    RemovedAll (existingSchemas.filter fun c => !schemas.any fun schema => schema.name == c.name)
      s s' := by
  obtain ⟨_, -, h⟩ := bind_eq_ok.mp h
  obtain ⟨s₁, removed, h⟩ := bind_eq_ok.mp h
  obtain ⟨_, -, h⟩ := bind_eq_ok.mp h
  obtain rfl := pure_eq_ok.mp h
  exact removed_of_foldlM removed

/-! ### Collections -/

/-- A collection has been opened for a schema: its databases bear the names of the schema. -/
structure OpenedFor (c : IsarSchema) (col : NativeCollection) : Prop where
  name : col.name = c.name
  db : ∀ db, col.db = some db → db = c.name
  indexes : col.indexes.map NativeIndex.db = c.indexes.map fun index => indexDb c.name index.name

theorem openIndexes_dbs {colName : String} {properties : List (String × NativeProperty)}
    {indexes : List IndexSchema} {opened : List NativeIndex}
    (h : openIndexes refused colName properties s indexes = .ok (s', opened)) :
    opened.map NativeIndex.db = indexes.map fun index => indexDb colName index.name := by
  induction indexes generalizing s opened with
  | nil =>
    cases pure_eq_ok.mp h
    rfl
  | cons index indexes ih =>
    obtain ⟨⟨s₁, db⟩, first, h⟩ := bind_eq_ok.mp h
    obtain ⟨_, -, h⟩ := bind_eq_ok.mp h
    obtain ⟨⟨s₂, rest⟩, others, h⟩ := bind_eq_ok.mp h
    have same : db = indexDb colName index.name := by
      obtain ⟨_, -, named⟩ := bind_eq_ok.mp first
      cases pure_eq_ok.mp named
      rfl
    cases pure_eq_ok.mp h
    rw [List.map_cons, List.map_cons, ih others, same]

theorem openedFor_of_migrateSchema {existingSchemas : List IsarSchema} {schemaNames : List String}
    {collectionIndex : Nat} {schema : IsarSchema} {col : NativeCollection × Int64}
    (h : migrateSchema refused existingSchemas schemaNames collectionIndex s schema =
      .ok (s', col)) : OpenedFor schema col.1 := by
  obtain ⟨_, -, h⟩ := bind_eq_ok.mp h
  obtain ⟨⟨s₁, merged⟩, -, h⟩ := bind_eq_ok.mp h
  obtain ⟨unsorted, -, h⟩ := bind_eq_ok.mp h
  obtain ⟨properties, -, h⟩ := bind_eq_ok.mp h
  obtain ⟨_, -, h⟩ := bind_eq_ok.mp h
  obtain ⟨⟨s₂, db⟩, primary, h⟩ := bind_eq_ok.mp h
  obtain ⟨⟨s₃, indexes⟩, secondary, h⟩ := bind_eq_ok.mp h
  obtain ⟨counter, -, h⟩ := bind_eq_ok.mp h
  obtain ⟨_, -, h⟩ := bind_eq_ok.mp h
  cases pure_eq_ok.mp h
  refine ⟨rfl, fun db' named => ?_, openIndexes_dbs secondary⟩
  have named : db = some db' := named
  unfold openCollectionDb at primary
  split at primary
  · cases pure_eq_ok.mp primary
    cases named
  · obtain ⟨_, -, eq⟩ := map_eq_ok.mp primary
    cases eq
    exact (Option.some.inj named).symm

end

/-- Every collection that a migration returns has been opened for one of its schemas. -/
theorem openedFor_of_migrateSchemas {refused : Faults} {existingSchemas : List IsarSchema}
    {schemaNames : List String} {n : Nat} {s s' : Storage} {schemas all : List IsarSchema}
    {before cols : List (NativeCollection × Int64)} (sub : ∀ c ∈ schemas, c ∈ all)
    (opened : ∀ col ∈ before, ∃ c ∈ all, OpenedFor c col.1)
    (h : migrateSchemas refused existingSchemas schemaNames n s before schemas =
      (s', .ok cols)) : ∀ col ∈ cols, ∃ c ∈ all, OpenedFor c col.1 := by
  induction schemas generalizing n s before with
  | nil =>
    cases h
    exact opened
  | cons c schemas ih =>
    unfold migrateSchemas at h
    cases turn : migrateSchema (refused n) existingSchemas schemaNames before.length s c with
    | error e =>
      rw [turn] at h
      cases h
    | ok result =>
      rw [turn] at h
      obtain ⟨s₁, col⟩ := result
      apply ih (fun c mem => sub c (List.mem_cons_of_mem _ mem)) _ h
      intro col' mem
      rcases List.mem_append.mp mem with mem | mem
      · exact opened col' mem
      · rw [List.mem_singleton.mp mem]
        exact ⟨c, sub c List.mem_cons_self, openedFor_of_migrateSchema turn⟩

/-- What a migration can do, whether it succeeds or fails. A stored schema stays, is replaced by one
that was asked for, or is removed with its databases; indexes are emptied that a schema asked for
drops. -/
structure Migrated (schemas : List IsarSchema) (s s' : Storage) : Prop where
  info : ∀ name, s'.info.find name = s.info.find name ∨
    (∃ c ∈ schemas, c.name = name ∧
      ∃ properties, s'.info.find name = some (savedSchema c properties)) ∨
    (∀ c ∈ schemas, c.name ≠ name) ∧ s'.info.find name = none
  objects : ∀ name, s'.objects name = s.objects name ∨
    (∀ c ∈ schemas, c.name ≠ name) ∧ ∃ e, s.info.find name = some e
  entries : ∀ db, s'.entries db = s.entries db ∨ ∃ name e, s.info.find name = some e ∧
    ((∃ c ∈ schemas, c.name = name ∧ ∃ i ∈ (c.findChanges e).dropIndexes, indexDb name i = db) ∨
      (∀ c ∈ schemas, c.name ≠ name) ∧ ∃ i ∈ e.indexes, indexDb name i.name = db)

theorem lastNamed_eq_some {schemas : List IsarSchema} {name : String} {c : IsarSchema}
    (found : lastNamed schemas name = some c) : c ∈ schemas ∧ c.name = name := by
  unfold lastNamed at found
  have named := List.find?_some found
  exact ⟨List.mem_reverse.mp (List.mem_of_find?_eq_some found), beq_iff_eq.mp named⟩

theorem lastNamed_eq_none {schemas : List IsarSchema} {name : String}
    (absent : lastNamed schemas name = none) : ∀ c ∈ schemas, c.name ≠ name := by
  intro c mem
  unfold lastNamed at absent
  have differ := List.find?_eq_none.mp absent c (List.mem_reverse.mpr mem)
  simpa using differ

theorem migrated_of_committed {done rest : List IsarSchema} {s s' : Storage}
    (committed : Committed (fun name => s.info.find name) done s s') :
    Migrated (done ++ rest) s s' := by
  refine ⟨fun name => ?_, fun name => Or.inl (committed.objects name), fun db => ?_⟩
  · have info := committed.info name
    cases found : lastNamed done name with
    | none =>
      rw [found] at info
      exact Or.inl info
    | some c =>
      rw [found] at info
      obtain ⟨mem, named⟩ := lastNamed_eq_some found
      exact Or.inr (Or.inl ⟨c, List.mem_append_left _ mem, named, _, info⟩)
  · rw [committed.entries]
    split
    · rename_i dropped
      obtain ⟨c, mem, dropped⟩ := dropped
      obtain ⟨e, stored, i, drop, same⟩ := mem_droppedDbs.mp dropped
      exact Or.inr ⟨c.name, e, stored,
        Or.inl ⟨c, List.mem_append_left _ mem, rfl, i, drop, same⟩⟩
    · exact Or.inl rfl

/-- The removal of collections follows on the loop. -/
theorem migrated_of_removed {schemas : List IsarSchema} {s s₁ s' : Storage}
    (committed : Committed (fun name => s.info.find name) schemas s s₁)
    (removed : RemovedAll (s.schemas.filter fun c => !schemas.any fun schema =>
      schema.name == c.name) s₁ s') : Migrated schemas s s' := by
  have loop : Migrated schemas s s₁ := by
    have := @migrated_of_committed schemas [] s s₁ committed
    rwa [List.append_nil] at this
  have absent (c : IsarSchema) (mem : c ∈ s.schemas.filter fun c => !schemas.any fun schema =>
      schema.name == c.name) : (∀ c' ∈ schemas, c'.name ≠ c.name) ∧
        s.info.find c.name = some c := by
    obtain ⟨stored, missing⟩ := List.mem_filter.mp mem
    refine ⟨fun c' mem' same => ?_, Storage.find_info_of_mem stored⟩
    have : (schemas.any fun schema => schema.name == c.name) = true :=
      List.any_eq_true.mpr ⟨c', mem', beq_iff_eq.mpr same⟩
    rw [this] at missing
    cases missing
  refine ⟨fun name => ?_, fun name => ?_, fun db => ?_⟩
  · rw [removed.info]
    split
    · rename_i listed
      obtain ⟨c, mem, rfl⟩ := List.mem_map.mp listed
      exact Or.inr (Or.inr ⟨(absent c mem).1, rfl⟩)
    · exact loop.info name
  · by_cases listed : name ∈ (s.schemas.filter fun c => !schemas.any fun schema =>
        schema.name == c.name).map IsarSchema.name
    · obtain ⟨c, mem, rfl⟩ := List.mem_map.mp listed
      exact Or.inr ⟨(absent c mem).1, c, (absent c mem).2⟩
    · rw [removed.objects name listed]
      exact loop.objects name
  · by_cases mem : ∃ c ∈ s.schemas.filter fun c => !schemas.any fun schema =>
        schema.name == c.name, db ∈ c.indexes.map fun index => indexDb c.name index.name
    · obtain ⟨c, mem, listed⟩ := mem
      obtain ⟨i, there, same⟩ := List.mem_map.mp listed
      exact Or.inr ⟨c.name, c, (absent c mem).2, Or.inr ⟨(absent c mem).1, i, there, same⟩⟩
    · rw [removed.entries db fun c mem' listed => mem ⟨c, mem', listed⟩]
      exact loop.entries db

/-- A migration commits the turns for some schemas; if these are all of them and the rest succeeds
as well, it removes what was not asked for. -/
theorem committed_of_performMigration {refused : Faults} {schemas : List IsarSchema}
    {s s' : Storage} {r : Result (List (NativeCollection × Int64))}
    (h : performMigration refused schemas s = (s', r)) :
    ∃ done rest s₁, schemas = done ++ rest ∧
      Committed (fun name => s.info.find name) done s s₁ ∧
      ((s' = s₁ ∧ ∃ e, r = .error e) ∨ (rest = [] ∧
        RemovedAll (s.schemas.filter fun c => !schemas.any fun schema => schema.name == c.name)
          s₁ s' ∧
        ∃ cols, r = .ok cols ∧ migrateSchemas refused s.schemas (schemas.map IsarSchema.name) 1 s []
          schemas = (s₁, .ok cols))) := by
  have start : Committed (fun name => s.schemas.find? fun c => c.name == name) [] s s :=
    ⟨fun _ => rfl, fun _ => rfl, fun _ => by simp⟩
  have existing : (fun name => s.schemas.find? fun c => c.name == name) =
      fun name => s.info.find name := funext s.find?_schemas
  unfold performMigration at h
  cases reading : readSchemas (refused 0) s with
  | error fault =>
    rw [reading] at h
    cases h
    rw [existing] at start
    exact ⟨[], schemas, s, rfl, start, Or.inl ⟨rfl, fault, rfl⟩⟩
  | ok existingSchemas =>
    have eq : existingSchemas = s.schemas := by
      obtain ⟨_, -, h⟩ := bind_eq_ok.mp reading
      obtain ⟨_, -, h⟩ := bind_eq_ok.mp h
      obtain ⟨_, -, h⟩ := bind_eq_ok.mp h
      obtain ⟨_, -, h⟩ := bind_eq_ok.mp h
      exact (pure_eq_ok.mp h).symm
    subst eq
    rw [reading] at h
    cases loop : migrateSchemas refused s.schemas (schemas.map IsarSchema.name) 1 s [] schemas with
    | mk s₁ r₁ =>
      obtain ⟨done, rest, split, committed, ends⟩ := committed_of_migrateSchemas start loop
      rw [existing, List.nil_append] at committed
      simp only [loop] at h
      rcases ends with ⟨rfl, cols, rfl⟩ | ⟨c, tail, fault, index, rfl, rfl, turn⟩
      · cases removing : removeCollections (refused (schemas.length + 1)) s.schemas schemas s₁ with
        | error fault =>
          simp only [removing] at h
          cases h
          exact ⟨done, [], _, split, committed, Or.inl ⟨rfl, fault, rfl⟩⟩
        | ok s₂ =>
          simp only [removing] at h
          cases h
          exact ⟨done, [], s₁, split, committed,
            Or.inr ⟨rfl, removedAll_of_removeCollections removing, cols, rfl, rfl⟩⟩
      · cases h
        exact ⟨done, c :: tail, _, split, committed, Or.inl ⟨rfl, fault, rfl⟩⟩

/-- A schema that was asked for is stored behind the loop, and it is not removed. -/
theorem stored_of_removed {schemas : List IsarSchema} {s s₁ s' : Storage}
    (committed : Committed (fun name => s.info.find name) schemas s s₁)
    (removed : RemovedAll (s.schemas.filter fun c => !schemas.any fun schema =>
      schema.name == c.name) s₁ s') {c : IsarSchema} (mem : c ∈ schemas) :
    ∃ c' ∈ schemas, c'.name = c.name ∧ s'.info.find c.name =
      some (savedSchema c' (keptProperties (s.info.find c.name) c')) := by
  have info := committed.info c.name
  cases found : lastNamed schemas c.name with
  | none => exact absurd rfl (lastNamed_eq_none found c mem)
  | some c' =>
    obtain ⟨mem', named⟩ := lastNamed_eq_some found
    rw [found] at info
    refine ⟨c', mem', named, ?_⟩
    rw [removed.info, if_neg]
    · exact info
    · intro listed
      obtain ⟨e, listed, same⟩ := List.mem_map.mp listed
      have missing := (List.mem_filter.mp listed).2
      have : (schemas.any fun schema => schema.name == e.name) = true :=
        List.any_eq_true.mpr ⟨c, mem, beq_iff_eq.mpr same.symm⟩
      rw [this] at missing
      cases missing

/-- What `perform_migration` leaves, and what its collections have been opened for. -/
theorem migrated_of_performMigration {refused : Faults} {schemas : List IsarSchema}
    {s s' : Storage} {r : Result (List (NativeCollection × Int64))}
    (h : performMigration refused schemas s = (s', r)) :
    Migrated schemas s s' ∧ ∀ cols, r = .ok cols →
      (∀ col ∈ cols, ∃ c ∈ schemas, OpenedFor c col.1) ∧
      ∀ c ∈ schemas, ∃ c' ∈ schemas, c'.name = c.name ∧
        ∃ properties, s'.info.find c.name = some (savedSchema c' properties) := by
  obtain ⟨done, rest, s₁, split, committed, ends⟩ := committed_of_performMigration h
  rcases ends with ⟨rfl, e, rfl⟩ | ⟨rfl, removed, cols, rfl, loop⟩
  · subst split
    refine ⟨migrated_of_committed committed, ?_⟩
    rintro cols ⟨⟩
  · rw [List.append_nil] at split
    subst split
    refine ⟨migrated_of_removed committed removed, ?_⟩
    rintro _ ⟨⟩
    refine ⟨openedFor_of_migrateSchemas (fun _ mem => mem) (by simp) loop, ?_⟩
    intro c mem
    obtain ⟨c', mem', named, stored⟩ := stored_of_removed committed removed mem
    exact ⟨c', mem', named, _, stored⟩

/-! ## Runs -/

/-- Of two stored collections none has an index database of the other. -/
theorem Unambiguous.indexDb_ne {s : Storage} (unambiguous : Unambiguous s.schemas)
    {name name' : String} {e e' : IsarSchema} (stored : s.info.find name = some e)
    (stored' : s.info.find name' = some e') (differ : name ≠ name') {i i' : IndexSchema}
    (there : i ∈ e.indexes) (there' : i' ∈ e'.indexes) :
    indexDb name i.name ≠ indexDb name' i'.name := by
  obtain ⟨mem, rfl⟩ := Storage.mem_of_find_info stored
  obtain ⟨mem', rfl⟩ := Storage.mem_of_find_info stored'
  apply (unambiguous_iff s.nodup_names).mp unambiguous e mem e' mem' _ i there i' there'
  rintro rfl
  exact differ rfl

/-- The stored schemas have indexes of different names, and what is open has been opened for a
stored schema. -/
structure Database.Sound (d : Database) : Prop where
  indexes : ∀ name e, d.storage.info.find name = some e →
    (e.indexes.map IndexSchema.name).Nodup
  opened : ∀ col ∈ d.collections, ∃ c e, OpenedFor c col ∧
    d.storage.info.find c.name = some e ∧ e.indexes = c.indexes

namespace Database.Sound

variable {xxh3_64 : Bytes → UInt64} {d d' : Database} {event : Event}

theorem new : Database.new.Sound where
  indexes := by
    rintro name e ⟨⟩
  opened := by
    rintro col ⟨⟩

theorem indexes_of_migrated {schemas : List IsarSchema} {s' : Storage} (sound : d.Sound)
    (verified : IsarSchema.verifySchemas schemas = .ok ())
    (migrated : Migrated schemas d.storage s') (name : String) (e : IsarSchema)
    (stored : s'.info.find name = some e) : (e.indexes.map IndexSchema.name).Nodup := by
  rcases migrated.info name with same | ⟨c, mem, -, properties, now⟩ | ⟨-, gone⟩
  · exact sound.indexes name e (same ▸ stored)
  · rw [now] at stored
    cases stored
    exact (IsarSchema.verified_of_verifySchemas verified c mem).indexes
  · rw [gone] at stored
    cases stored

theorem step (sound : d.Sound) (h : Database.Step xxh3_64 d event d') : d'.Sound := by
  cases h with
  | commit opened done => exact ⟨sound.indexes, sound.opened⟩
  | abort => exact sound
  | migrate verified names done =>
    obtain ⟨migrated, opened⟩ := migrated_of_performMigration done
    obtain ⟨openedFor, stored⟩ := opened _ rfl
    refine ⟨sound.indexes_of_migrated verified migrated, ?_⟩
    intro col listed
    obtain ⟨entry, mem, rfl⟩ := List.mem_map.mp listed
    obtain ⟨c, asked, bound⟩ := openedFor entry mem
    obtain ⟨c', asked', same, properties, now⟩ := stored c asked
    obtain rfl := List.inj_on_of_nodup_map names asked' asked same
    exact ⟨c', _, bound, now, rfl⟩
  | fail verified names failed =>
    obtain ⟨migrated, -⟩ := migrated_of_performMigration failed
    refine ⟨sound.indexes_of_migrated verified migrated, ?_⟩
    rintro col ⟨⟩

end Database.Sound

theorem Untouched.refl (name : String) (s : Storage) : Untouched name s s :=
  fun existing stored => ⟨⟨existing, stored, List.Perm.refl _⟩, rfl, fun _ _ => rfl⟩

theorem Untouched.trans {name : String} {s s₁ s' : Storage} (first : Untouched name s s₁)
    (second : Untouched name s₁ s') : Untouched name s s' := by
  intro existing stored
  obtain ⟨⟨e, stored₁, perm⟩, objects, entries⟩ := first existing stored
  obtain ⟨⟨e', stored', perm'⟩, objects', entries'⟩ := second e stored₁
  refine ⟨⟨e', stored', perm'.trans perm⟩, objects'.trans objects, fun i there => ?_⟩
  exact (entries' i (perm.mem_iff.mpr there)).trans (entries i there)

theorem objects_commitTxn {s : Storage} {txn : NativeTxn} {db : Db}
    (same : txn.primary db = s.objects db) : (s.commitTxn txn).objects db = s.objects db := by
  unfold Storage.objects Storage.commitTxn
  cases stored : s.primary db with
  | none => simp [stored]
  | some m => simp [stored, same, Storage.objects]

theorem entries_commitTxn {s : Storage} {txn : NativeTxn} {db : Db}
    (same : txn.index db = s.entries db) : (s.commitTxn txn).entries db = s.entries db := by
  unfold Storage.entries Storage.commitTxn
  cases stored : s.index db with
  | none => simp [stored]
  | some m => simp [stored, same, Storage.entries]

/-- A migration that concerns one collection leaves the others as they are. -/
theorem untouched_of_migrated {d : Database} {schemas : List IsarSchema} {s' : Storage}
    {refused : Faults} {name other : String} (sound : d.Sound)
    (unambiguous : Unambiguous d.storage.schemas)
    (verified : IsarSchema.verifySchemas schemas = .ok ())
    (names : (schemas.map IsarSchema.name).Nodup)
    (concerns : d.Concerns name (.migrate refused schemas)) (differ : other ≠ name)
    (migrated : Migrated schemas d.storage s') : Untouched other d.storage s' := by
  intro e stored
  obtain ⟨c, asked, rfl, unchanged⟩ := concerns other e differ stored
  have perm : c.indexes.Perm e.indexes := by
    have new : (c.indexes.map IndexSchema.name).Nodup :=
      (IsarSchema.verified_of_verifySchemas verified c asked).indexes
    have perm := IsarSchema.perm_indexes (sound.indexes _ e stored) new
    rw [unchanged] at perm
    simpa using perm.symm
  refine ⟨?_, ?_, fun i there => ?_⟩
  · rcases migrated.info c.name with same | ⟨c', asked', same, properties, now⟩ | ⟨absent, -⟩
    · exact ⟨e, same.trans stored, List.Perm.refl _⟩
    · obtain rfl := List.inj_on_of_nodup_map names asked' asked same
      exact ⟨_, now, perm⟩
    · exact absurd rfl (absent c asked)
  · rcases migrated.objects c.name with same | ⟨absent, -⟩
    · exact same
    · exact absurd rfl (absent c asked)
  · rcases migrated.entries (indexDb c.name i.name) with same | ⟨n, e', stored', lost⟩
    · exact same
    · -- the index that is lost is one of a stored collection, which is the one concerned
      have old : ∃ i' ∈ e'.indexes, indexDb n i'.name = indexDb c.name i.name := by
        rcases lost with ⟨c', -, -, i', drop, same⟩ | ⟨-, i', there', same⟩
        · obtain ⟨i', there', rfl⟩ :=
            List.mem_map.mp (IsarSchema.dropIndexes_sub_names c' e' drop)
          exact ⟨i', there', same⟩
        · exact ⟨i', there', same⟩
      by_cases own : n = c.name
      · subst own
        rw [stored] at stored'
        cases stored'
        rcases lost with ⟨c', asked', named, i', drop, -⟩ | ⟨absent, -⟩
        · obtain rfl := List.inj_on_of_nodup_map names asked' asked named
          rw [unchanged] at drop
          cases drop
        · exact absurd rfl (absent c asked)
      · obtain ⟨i', there', same⟩ := old
        exact absurd same (unambiguous.indexDb_ne stored' stored own there' there)

theorem untouched_of_step {xxh3_64 : Bytes → UInt64} {d d' : Database} {event : Event}
    {name other : String} (sound : d.Sound) (unambiguous : Unambiguous d.storage.schemas)
    (concerns : d.Concerns name event) (differ : other ≠ name)
    (h : Database.Step xxh3_64 d event d') : Untouched other d.storage d'.storage := by
  cases h with
  | abort => exact Untouched.refl other d.storage
  | migrate verified names done =>
    exact untouched_of_migrated sound unambiguous verified names concerns differ
      (migrated_of_performMigration done).1
  | fail verified names failed =>
    exact untouched_of_migrated sound unambiguous verified names concerns differ
      (migrated_of_performMigration failed).1
  | @commit col _ _ txn opened done =>
    have named : col.name = name := concerns
    obtain ⟨c, e', bound, stored', same⟩ := sound.opened col opened
    have within := NativeCollection.Within.run done
    intro e stored
    have apart : c.name ≠ other := by
      rw [← bound.name, named]
      exact differ.symm
    refine ⟨⟨e, stored, List.Perm.refl _⟩, ?_, fun i there => ?_⟩
    · apply objects_commitTxn
      apply within.primary
      intro primary
      exact apart (bound.db other primary).symm
    · apply entries_commitTxn
      apply within.index
      rw [bound.indexes]
      intro listed
      obtain ⟨i', there', eq⟩ := List.mem_map.mp listed
      rw [← same] at there'
      exact unambiguous.indexDb_ne stored' stored apart there' there eq

/-- The database names of verified schemas are pairwise different exactly if they can be read in one
way only. In a run of transactions and migrations on one collection, during which this is so of the
stored schemas, every other stored collection keeps its objects and its index entries. -/
theorem separation_exact (xxh3_64 : Bytes → UInt64) {schemas : List IsarSchema}
    (verified : IsarSchema.verifySchemas schemas = .ok ())
    (names : (schemas.map IsarSchema.name).Nodup) :
    ((databaseNames schemas).Nodup ↔ Unambiguous schemas) ∧
    ∀ (before events : List Event) (d d' : Database) (name other : String),
      Run (Database.Step xxh3_64) .new before d →
      Run (fun d event d' => Database.Step xxh3_64 d event d' ∧ d.Concerns name event ∧
        Unambiguous d.storage.schemas) d events d' →
      other ≠ name → Untouched other d.storage d'.storage := by
  refine ⟨databaseNames_nodup_iff verified names, ?_⟩
  intro before events d d' name other reached run differ
  have sound : d.Sound := reached.invariant (fun _ _ _ sound one => sound.step one) .new
  clear reached
  induction run with
  | nil => exact Untouched.refl other _
  | cons one _ ih =>
    obtain ⟨step, concerns, unambiguous⟩ := one
    exact (untouched_of_step sound unambiguous concerns differ step).trans (ih (sound.step step))

/-- A collection with one unique index. -/
def countedBy (name property : String) : IsarSchema where
  name
  idName := some "id"
  embedded := false
  properties := [⟨some property, .long, none⟩]
  indexes := [{ name := property, properties := [property], unique := true, hash := false }]
  version := 0

def taskAndUser : List IsarSchema := [countedBy "Task" "due", countedBy "User" "age"]

/-- The same without the index of the tasks. -/
def plainTaskAndUser : List IsarSchema :=
  [(countedBy "Task" "due").withoutIndex
    { name := "due", properties := ["due"], unique := true, hash := false }, countedBy "User" "age"]

/-- The storage behind the migration to both. -/
def bothStorage : Storage := (performMigration noFaults taskAndUser Database.new.storage).1

def counted (collectionIndex : UInt16) (name property : String) : NativeCollection :=
  .new collectionIndex name (some "id") [(property, ⟨.long, 0, none⟩)]
    [{ name := property, properties := [⟨.long, 0, none⟩], unique := true, hash := false
       db := indexDb name property }] (some name)

/-- An object with the value five. -/
def five : Bytes := [8, 0, 0, 5, 0, 0, 0, 0, 0, 0, 0]

/-- A user is saved; then a task is, and the index of the tasks is dropped. -/
theorem separation_exact_on_tasks :
    ((databaseNames taskAndUser).Nodup ↔ Unambiguous taskAndUser) ∧
    ∃ before events d d', Run (Database.Step fun _ => 0) .new before d ∧
      (d.storage.objects "User").find (idKey 1) = some five ∧
      Run (fun d event d' => Database.Step (fun _ => 0) d event d' ∧ d.Concerns "Task" event ∧
        Unambiguous d.storage.schemas) d events d' ∧
      (d'.storage.objects "Task").find (idKey 1) = some five ∧
      Untouched "User" d.storage d'.storage := by
  have exact_ := @separation_exact (fun _ => 0) taskAndUser rfl (by decide)
  refine ⟨exact_.1, ?_⟩
  obtain ⟨⟨txn, txn', s, cols⟩, h, found⟩ := exists_of_succeedsWith
    (do
      let txn ← (counted 1 "User" "age").run (fun _ => 0) (bothStorage.beginTxn fun _ => 1)
        [.save 1 five]
      let txn' ← (counted 0 "Task" "due").run (fun _ => 0)
        ((bothStorage.commitTxn txn).beginTxn fun _ => 1) [.save 1 five]
      match performMigration noFaults plainTaskAndUser
        ((bothStorage.commitTxn txn).commitTxn txn') with
      | (s, .ok cols) => pure (txn, txn', s, cols)
      | (_, .error e) => .error e)
    (fun r => ((bothStorage.commitTxn r.1).objects "User").find (idKey 1) = some five ∧
      (r.2.2.1.objects "Task").find (idKey 1) = some five)
    (by decide +kernel)
  obtain ⟨saved, done, h⟩ := bind_eq_ok.mp h
  obtain ⟨saved', done', h⟩ := bind_eq_ok.mp h
  obtain ⟨user, task⟩ := of_decide_eq_true found
  split at h
  rotate_left
  · cases h
  rename_i s₁ cols₁ migrated
  cases h
  have reached : Run (Database.Step fun _ => 0) .new
      [.migrate noFaults taskAndUser, .operate "User" [.save 1 five]]
      ⟨bothStorage.commitTxn txn, [counted 0 "Task" "due", counted 1 "User" "age"]⟩ :=
    .cons (@Database.Step.migrate _ _ noFaults taskAndUser bothStorage
        [(counted 0 "Task" "due", 1), (counted 1 "User" "age", 1)] rfl (by decide) rfl)
      (.cons (@Database.Step.commit _ ⟨bothStorage, _⟩ (counted 1 "User" "age") _ _ txn
        (List.mem_cons_of_mem _ List.mem_cons_self) done) .nil)
  have unambiguous : Unambiguous bothStorage.schemas :=
    (unambiguous_iff (by decide +kernel)).mpr (by decide +kernel)
  have concerns {d : Database} (same : d.storage.info = bothStorage.info) :
      d.Concerns "Task" (.migrate noFaults plainTaskAndUser) := by
    intro other existing differ stored
    have info : bothStorage.info = (SortedMap.empty.insert "Task"
        (savedSchema (countedBy "Task" "due") (countedBy "Task" "due").properties)).insert "User"
        (savedSchema (countedBy "User" "age") (countedBy "User" "age").properties) := rfl
    rw [same, info, SortedMap.find_insert, SortedMap.find_insert, if_neg differ] at stored
    split at stored
    · rename_i user
      cases stored
      exact ⟨countedBy "User" "age", List.mem_cons_of_mem _ List.mem_cons_self, user.symm, rfl⟩
    · cases stored
  have run : Run (fun d event d' => Database.Step (fun _ => 0) d event d' ∧ d.Concerns "Task" event ∧
        Unambiguous d.storage.schemas)
      ⟨bothStorage.commitTxn txn, [counted 0 "Task" "due", counted 1 "User" "age"]⟩
      [.operate "Task" [.save 1 five], .migrate noFaults plainTaskAndUser]
      ⟨s, cols.map Prod.fst⟩ :=
    .cons ⟨@Database.Step.commit _ ⟨bothStorage.commitTxn txn, _⟩ (counted 0 "Task" "due") _ _ txn'
        List.mem_cons_self done', rfl, unambiguous⟩
      (.cons ⟨.migrate rfl (by decide) migrated, concerns rfl, unambiguous⟩ .nil)
  exact ⟨_, _, _, _, reached, user, run, task,
    exact_.2 _ _ _ _ "Task" "User" reached run (by decide)⟩

/-- The index `b_c` of `a` and the index `c` of `a_b` are one database. -/
theorem shared_index_database : ¬ ∀ schemas, IsarSchema.verifySchemas schemas = .ok () →
    (schemas.map IsarSchema.name).Nodup → (databaseNames schemas).Nodup := by
  intro all
  have nodup := all [countedBy "a" "b_c", countedBy "a_b" "c"] rfl (by decide)
  exact absurd nodup (by decide)

end IsarPlus.Native
