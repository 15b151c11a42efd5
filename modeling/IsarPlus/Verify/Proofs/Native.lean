import IsarPlus.Core.SchemaDiff
import IsarPlus.Native.Proofs.IndexHistory
import IsarPlus.Verify.Native
import IsarPlus.Verify.Proofs.Sqlite

/-!
# What the check of a native database accepts

After an opening, `verify_native` accepts the databases that are there exactly if no collection that
is embedded now has left a database behind; nothing that transactions do changes that.
-/

namespace IsarPlus.Native
open ByteBuffer OrderedStore

/-! ## Databases that come and go -/

/-- What is there has been there, or is among the new databases. -/
structure Adds (new newIndexes dropped : List Db) (s s' : Storage) : Prop where
  primary : ∀ db, (s'.primary db).isSome → db ∈ new ∨ (s.primary db).isSome
  index : ∀ db, (s'.index db).isSome → db ∈ newIndexes ∨ db ∉ dropped ∧ (s.index db).isSome

section
variable {refused : TxnFaults} {s s' s₁ : Storage}

theorem Adds.refl (s : Storage) : Adds [] [] [] s s :=
  ⟨fun _ there => Or.inr there, fun _ there => Or.inr ⟨List.not_mem_nil, there⟩⟩

/-- What is dropped first and what is opened then. -/
theorem Adds.trans {new new' newIndexes dropped : List Db} (first : Adds new [] dropped s s₁)
    (second : Adds new' newIndexes [] s₁ s') : Adds (new ++ new') newIndexes dropped s s' := by
  refine ⟨fun db there => ?_, fun db there => ?_⟩
  · rcases second.primary db there with added | there
    · exact Or.inl (List.mem_append_right _ added)
    · exact (first.primary db there).imp (List.mem_append_left _) id
  · rcases second.index db there with added | ⟨-, there⟩
    · exact Or.inl added
    · exact Or.inr ((first.index db there).resolve_left List.not_mem_nil)

theorem of_isSome_update {α : Type} {f : Db → Option α} {db db' : Db} {a : Option α}
    (there : (Function.update f db a db').isSome) : db' = db ∧ a.isSome ∨ (f db').isSome := by
  by_cases same : db' = db
  · subst same
    rw [Function.update_self] at there
    exact Or.inl ⟨rfl, there⟩
  · rw [Function.update_of_ne same] at there
    exact Or.inr there

theorem adds_openDb {db : Db} (h : openDb refused s db = .ok s') : Adds [db] [] [] s s' := by
  obtain ⟨_, -, h⟩ := bind_eq_ok.mp h
  obtain rfl := pure_eq_ok.mp h
  refine ⟨fun db' there => ?_, fun _ there => Or.inr ⟨List.not_mem_nil, there⟩⟩
  exact (of_isSome_update there).imp (fun same => List.mem_singleton.mpr same.1) id

theorem adds_openCollectionDb {schema : IsarSchema} {db : Option Db}
    (h : openCollectionDb refused s schema = .ok (s', db)) :
    Adds (if schema.embedded then [] else [schema.name]) [] [] s s' := by
  unfold openCollectionDb at h
  by_cases embedded : schema.embedded = true
  · rw [if_pos embedded] at h ⊢
    cases pure_eq_ok.mp h
    exact Adds.refl _
  · rw [if_neg embedded] at h ⊢
    obtain ⟨s₁, opened, eq⟩ := map_eq_ok.mp h
    cases eq
    exact adds_openDb opened

theorem adds_openIndexes {colName : String} {properties : List (String × NativeProperty)}
    {indexes : List IndexSchema} {opened : List NativeIndex}
    (h : openIndexes refused colName properties s indexes = .ok (s', opened)) :
    Adds [] (indexes.map fun i => indexDb colName i.name) [] s s' ∧
      opened.map NativeIndex.name = indexes.map IndexSchema.name := by
  induction indexes generalizing s opened with
  | nil =>
    cases pure_eq_ok.mp h
    exact ⟨Adds.refl _, rfl⟩
  | cons index indexes ih =>
    obtain ⟨⟨s₁, db⟩, first, h⟩ := bind_eq_ok.mp h
    obtain ⟨_, -, h⟩ := bind_eq_ok.mp h
    obtain ⟨⟨s₂, rest⟩, others, h⟩ := bind_eq_ok.mp h
    cases pure_eq_ok.mp h
    obtain ⟨-, rfl⟩ := leaves_openIndexDb first
    obtain ⟨adds, names⟩ := ih others
    refine ⟨⟨fun db there => adds.primary db there, fun db there => ?_⟩, ?_⟩
    · rcases adds.index db there with added | ⟨-, there⟩
      · exact Or.inl (List.mem_cons_of_mem _ added)
      · rcases of_isSome_update there with ⟨rfl, -⟩ | there
        · exact Or.inl List.mem_cons_self
        · exact Or.inr ⟨List.not_mem_nil, there⟩
    · rw [List.map_cons, List.map_cons, names]

theorem adds_dropIndexDb {colName indexName : String}
    (h : dropIndexDb refused s colName indexName = .ok s') :
    Adds [] [] [indexDb colName indexName] s s' := by
  obtain ⟨⟨s₁, db⟩, opened, h⟩ := bind_eq_ok.mp h
  obtain ⟨_, -, h⟩ := bind_eq_ok.mp h
  obtain rfl := pure_eq_ok.mp h
  obtain ⟨_, -, named⟩ := bind_eq_ok.mp opened
  cases pure_eq_ok.mp named
  refine ⟨fun db there => Or.inr there, fun db there => Or.inr ?_⟩
  by_cases same : db = indexDb colName indexName
  · subst same
    simp [Storage.dropIndex] at there
  · simp only [Storage.dropIndex, Storage.openIndex, Function.update_of_ne same] at there
    exact ⟨fun listed => same (List.mem_singleton.mp listed), there⟩

theorem adds_dropIndexes {colName : String} {names : List String}
    (h : names.foldlM (fun s index => dropIndexDb refused s colName index) s = .ok s') :
    Adds [] [] (names.map (indexDb colName)) s s' := by
  induction names generalizing s with
  | nil =>
    obtain rfl := pure_eq_ok.mp h
    exact Adds.refl _
  | cons name names ih =>
    obtain ⟨s₁, first, rest⟩ := bind_eq_ok.mp h
    have one := adds_dropIndexDb first
    have others := ih rest
    refine ⟨fun db there => (others.primary db there).elim Or.inl (one.primary db), ?_⟩
    intro db there
    obtain ⟨stays, there⟩ := (others.index db there).resolve_left List.not_mem_nil
    obtain ⟨stays', there⟩ := (one.index db there).resolve_left List.not_mem_nil
    refine Or.inr ⟨?_, there⟩
    rw [List.map_cons, List.mem_cons, not_or]
    exact ⟨fun same => stays' (List.mem_singleton.mpr same), stays⟩

theorem adds_migrateProperties {existingSchemas : List IsarSchema} {schema : IsarSchema}
    {merged : List PropertySchema}
    (h : migrateProperties refused existingSchemas s schema = .ok (s', merged)) :
    Adds [] [] (droppedDbs (existingSchemas.find? fun c => c.name == schema.name) schema) s s' := by
  unfold migrateProperties at h
  cases found : existingSchemas.find? fun c => c.name == schema.name with
  | none =>
    rw [found] at h
    cases pure_eq_ok.mp h
    exact Adds.refl s
  | some existing =>
    rw [found] at h
    have h : migrateCollection refused s schema existing = .ok (s', merged) := h
    unfold migrateCollection at h
    by_cases old : existing.version ≠ isarFileVersion
    · simp [old] at h
    · rw [if_neg old] at h
      obtain ⟨s₁, drops, h⟩ := bind_eq_ok.mp h
      cases pure_eq_ok.mp h
      exact adds_dropIndexes drops

/-- A collection has been opened under the names of its schema. -/
structure OpenedAs (c : IsarSchema) (col : NativeCollection) : Prop where
  name : col.name = c.name
  idName : col.idName = c.idName
  indexes : col.indexes.map NativeIndex.name = c.indexes.map IndexSchema.name

/-- One turn of the loop. -/
theorem adds_migrateSchema {existingSchemas : List IsarSchema} {schemaNames : List String}
    {collectionIndex : Nat} {schema : IsarSchema} {col : NativeCollection × Int64}
    (h : migrateSchema refused existingSchemas schemaNames collectionIndex s schema =
      .ok (s', col)) :
    Adds (if schema.embedded then [] else [schema.name])
        (schema.indexes.map fun i => indexDb schema.name i.name)
        (droppedDbs (existingSchemas.find? fun c => c.name == schema.name) schema) s s' ∧
      OpenedAs schema col.1 := by
  obtain ⟨_, -, h⟩ := bind_eq_ok.mp h
  obtain ⟨⟨s₁, merged⟩, migrated, h⟩ := bind_eq_ok.mp h
  obtain ⟨unsorted, -, h⟩ := bind_eq_ok.mp h
  obtain ⟨properties, -, h⟩ := bind_eq_ok.mp h
  obtain ⟨_, -, h⟩ := bind_eq_ok.mp h
  obtain ⟨⟨s₂, db⟩, primary, h⟩ := bind_eq_ok.mp h
  obtain ⟨⟨s₃, indexes⟩, secondary, h⟩ := bind_eq_ok.mp h
  obtain ⟨counter, -, h⟩ := bind_eq_ok.mp h
  obtain ⟨_, -, h⟩ := bind_eq_ok.mp h
  cases pure_eq_ok.mp h
  obtain ⟨third, names⟩ := adds_openIndexes secondary
  have saved : Adds [] [] [] s₁ (s₁.putSchema (savedSchema schema merged)) :=
    ⟨fun _ there => Or.inr there, fun _ there => Or.inr ⟨List.not_mem_nil, there⟩⟩
  have all := (adds_migrateProperties migrated).trans
    (saved.trans ((adds_openCollectionDb primary).trans third))
  rw [List.nil_append, List.nil_append, List.append_nil] at all
  exact ⟨all, rfl, rfl, names⟩

/-- What a removed collection takes with it. -/
structure Takes (c : IsarSchema) (s s' : Storage) : Prop where
  primary : ∀ db, (s'.primary db).isSome ↔ db ≠ c.name ∧ (s.primary db).isSome
  index : ∀ db, (s'.index db).isSome →
    db ∉ c.indexes.map (fun i => indexDb c.name i.name) ∧ (s.index db).isSome

theorem takes_of_deleteCollection {c : IsarSchema} (h : deleteCollection refused s c = .ok s') :
    Takes c s s' := by
  have retains := (retains_of_deleteCollection h).1
  obtain ⟨s₁, opened, h⟩ := bind_eq_ok.mp h
  obtain ⟨_, -, h⟩ := bind_eq_ok.mp h
  obtain ⟨s₂, dropped, h⟩ := bind_eq_ok.mp h
  obtain ⟨_, -, h⟩ := bind_eq_ok.mp h
  obtain rfl := pure_eq_ok.mp h
  have dropped : (c.indexes.map IndexSchema.name).foldlM
      (fun s index => dropIndexDb refused s c.name index) (s₁.dropPrimary c.name) = .ok s₂ := by
    rw [List.foldlM_map]
    exact dropped
  have first := adds_openDb opened
  have second := adds_dropIndexes dropped
  rw [List.map_map] at second
  refine ⟨fun db => ⟨fun there => ?_, fun ⟨other, there⟩ => retains db other there⟩,
    fun db there => ?_⟩
  · have there := (second.primary db there).resolve_left List.not_mem_nil
    by_cases same : db = c.name
    · subst same
      simp [Storage.dropPrimary] at there
    · simp only [Storage.dropPrimary, Function.update_of_ne same] at there
      exact ⟨same, (first.primary db there).resolve_left fun listed =>
        same (List.mem_singleton.mp listed)⟩
  · obtain ⟨stays, there⟩ := (second.index db there).resolve_left List.not_mem_nil
    exact ⟨stays, ((first.index db there).resolve_left List.not_mem_nil).2⟩

theorem takes_of_removed {removed : List IsarSchema}
    (h : removed.foldlM (deleteCollection refused) s = .ok s') :
    (∀ db, (s'.primary db).isSome ↔
      db ∉ removed.map IsarSchema.name ∧ (s.primary db).isSome) ∧
    ∀ db, (s'.index db).isSome →
      (∀ c ∈ removed, db ∉ c.indexes.map fun i => indexDb c.name i.name) ∧ (s.index db).isSome := by
  induction removed generalizing s with
  | nil =>
    obtain rfl := pure_eq_ok.mp h
    exact ⟨fun db => by simp, fun db there => ⟨List.forall_mem_nil _, there⟩⟩
  | cons c removed ih =>
    obtain ⟨s₁, first, rest⟩ := bind_eq_ok.mp h
    have one := takes_of_deleteCollection first
    obtain ⟨primary, index⟩ := ih rest
    refine ⟨fun db => ?_, fun db there => ?_⟩
    · rw [primary, one.primary, List.map_cons, List.mem_cons, not_or, and_left_comm, and_assoc]
    · obtain ⟨stays, there⟩ := index db there
      obtain ⟨stays', there⟩ := one.index db there
      exact ⟨List.forall_mem_cons.mpr ⟨stays', stays⟩, there⟩

end

/-! ## The loop -/

/-- What the turns for `done` have committed, with the databases that are there. -/
structure Accounts (existing : String → Option IsarSchema) (done : List IsarSchema)
    (s s' : Storage) : Prop where
  committed : Committed existing done s s'
  primary : ∀ db, (s'.primary db).isSome ↔
    (∃ c ∈ done, c.embedded = false ∧ db = c.name) ∨ (s.primary db).isSome
  index : ∀ db, (s'.index db).isSome → (∃ c ∈ done, ∃ i ∈ c.indexes, db = indexDb c.name i.name) ∨
    (∀ c ∈ done, db ∉ droppedDbs (existing c.name) c) ∧ (s.index db).isSome

theorem Accounts.start (existing : String → Option IsarSchema) (s : Storage) :
    Accounts existing [] s s where
  committed := ⟨fun _ => rfl, fun _ => rfl, fun _ => by simp⟩
  primary db := by simp
  index db there := Or.inr ⟨List.forall_mem_nil _, there⟩

theorem Accounts.turn {refused : TxnFaults} {existingSchemas : List IsarSchema}
    {schemaNames : List String} {collectionIndex : Nat} {done : List IsarSchema} {c : IsarSchema}
    {s s₁ s' : Storage} {col : NativeCollection × Int64}
    (accounts : Accounts (fun name => existingSchemas.find? fun c => c.name == name) done s s₁)
    (h : migrateSchema refused existingSchemas schemaNames collectionIndex s₁ c = .ok (s', col)) :
    Accounts (fun name => existingSchemas.find? fun c => c.name == name) (done ++ [c]) s s' := by
  obtain ⟨adds, -⟩ := adds_migrateSchema h
  obtain ⟨retains, present⟩ := present_of_migrateSchema h
  refine ⟨accounts.committed.concat (turn_of_migrateSchema h), fun db => ⟨fun there => ?_, ?_⟩,
    fun db there => ?_⟩
  · rcases adds.primary db there with added | there
    · cases embedded : c.embedded with
      | true =>
        rw [embedded, if_pos rfl] at added
        cases added
      | false =>
        rw [embedded, if_neg Bool.false_ne_true, List.mem_singleton] at added
        exact Or.inl ⟨c, by simp, embedded, added⟩
    · refine ((accounts.primary db).mp there).imp_left ?_
      rintro ⟨c', mem, stored⟩
      exact ⟨c', List.mem_append_left _ mem, stored⟩
  · rintro (⟨c', mem, stored, rfl⟩ | there)
    · rcases List.mem_append.mp mem with mem | mem
      · exact retains.primary _ ((accounts.primary _).mpr (Or.inl ⟨c', mem, stored, rfl⟩))
      · rw [List.mem_singleton.mp mem] at stored ⊢
        exact present.primary stored
    · exact retains.primary db ((accounts.primary db).mpr (Or.inr there))
  · rcases adds.index db there with added | ⟨stays, there⟩
    · obtain ⟨i, mem, rfl⟩ := List.mem_map.mp added
      exact Or.inl ⟨c, by simp, i, mem, rfl⟩
    · rcases accounts.index db there with ⟨c', mem, added⟩ | ⟨others, there⟩
      · exact Or.inl ⟨c', List.mem_append_left _ mem, added⟩
      · refine Or.inr ⟨?_, there⟩
        rw [List.forall_mem_append]
        exact ⟨others, fun c' mem => List.mem_singleton.mp mem ▸ stays⟩

/-- By induction on the schemas. -/
theorem accounts_of_migrateSchemas {refused : Faults} {existingSchemas : List IsarSchema}
    {schemaNames : List String} {start s s' : Storage} {n : Nat}
    {cols : List (NativeCollection × Int64)} {schemas before : List IsarSchema}
    {r : Result (List (NativeCollection × Int64))}
    (accounts : Accounts (fun name => existingSchemas.find? fun c => c.name == name) before start s)
    (h : migrateSchemas refused existingSchemas schemaNames n s cols schemas = (s', r)) :
    ∃ done rest, schemas = done ++ rest ∧
      Accounts (fun name => existingSchemas.find? fun c => c.name == name) (before ++ done)
        start s' ∧
      ((∃ e, r = .error e) ∨ rest = [] ∧ ∃ opened, r = .ok (cols ++ opened) ∧
        List.Forall₂ (fun c col => OpenedAs c col.1) schemas opened) := by
  induction schemas generalizing n s cols before with
  | nil =>
    cases h
    exact ⟨[], [], rfl, by simpa using accounts, Or.inr ⟨rfl, [], by simp, .nil⟩⟩
  | cons c schemas ih =>
    unfold migrateSchemas at h
    cases turn : migrateSchema (refused n) existingSchemas schemaNames cols.length s c with
    | error e =>
      rw [turn] at h
      cases h
      exact ⟨[], c :: schemas, rfl, by simpa using accounts, Or.inl ⟨e, rfl⟩⟩
    | ok result =>
      rw [turn] at h
      obtain ⟨s₁, col⟩ := result
      obtain ⟨done, rest, rfl, accounts', ends⟩ := ih (accounts.turn turn) h
      refine ⟨c :: done, rest, rfl, by simpa using accounts', ends.imp_right ?_⟩
      rintro ⟨none_, opened, eq, all⟩
      exact ⟨none_, col :: opened, by simpa using eq, .cons (adds_migrateSchema turn).2 all⟩

/-- The parts of a migration. -/
theorem accounts_of_performMigration {refused : Faults} {schemas : List IsarSchema}
    {s s' : Storage} {r : Result (List (NativeCollection × Int64))}
    (h : performMigration refused schemas s = (s', r)) :
    ∃ done rest s₁, schemas = done ++ rest ∧ Accounts (fun name => s.info.find name) done s s₁ ∧
      ((s' = s₁ ∧ ∃ e, r = .error e) ∨ rest = [] ∧ ∃ cols, r = .ok cols ∧
        List.Forall₂ (fun c col => OpenedAs c col.1) schemas cols ∧
        (s.schemas.filter fun c => !schemas.any fun schema => schema.name == c.name).foldlM
          (deleteCollection (refused (schemas.length + 1))) s₁ = .ok s') := by
  have existing : (fun name => s.schemas.find? fun c => c.name == name) =
      fun name => s.info.find name := funext s.find?_schemas
  have start := Accounts.start (fun name => s.schemas.find? fun c => c.name == name) s
  unfold performMigration at h
  cases reading : readSchemas (refused 0) s with
  | error fault =>
    rw [reading] at h
    cases h
    rw [existing] at start
    exact ⟨[], schemas, s, rfl, start, Or.inl ⟨rfl, fault, rfl⟩⟩
  | ok existingSchemas =>
    have eq : existingSchemas = s.schemas := by
      obtain ⟨_, -, h⟩ := bind_eq_ok.mp reading
      obtain ⟨_, -, h⟩ := bind_eq_ok.mp h
      obtain ⟨_, -, h⟩ := bind_eq_ok.mp h
      obtain ⟨_, -, h⟩ := bind_eq_ok.mp h
      exact (pure_eq_ok.mp h).symm
    subst eq
    rw [reading] at h
    cases loop : migrateSchemas refused s.schemas (schemas.map IsarSchema.name) 1 s [] schemas with
    | mk s₁ r₁ =>
      obtain ⟨done, rest, split, accounts, ends⟩ := accounts_of_migrateSchemas start loop
      rw [existing, List.nil_append] at accounts
      simp only [loop] at h
      rcases ends with ⟨e, rfl⟩ | ⟨rfl, opened, rfl, all⟩
      · cases h
        exact ⟨done, rest, _, split, accounts, Or.inl ⟨rfl, e, rfl⟩⟩
      · cases removing : removeCollections (refused (schemas.length + 1)) s.schemas schemas s₁ with
        | error fault =>
          simp only [removing] at h
          cases h
          exact ⟨done, [], _, split, accounts, Or.inl ⟨rfl, fault, rfl⟩⟩
        | ok s₂ =>
          simp only [removing] at h
          cases h
          obtain ⟨_, -, removing⟩ := bind_eq_ok.mp removing
          obtain ⟨s₃, removed, removing⟩ := bind_eq_ok.mp removing
          obtain ⟨_, -, removing⟩ := bind_eq_ok.mp removing
          obtain rfl := pure_eq_ok.mp removing
          exact ⟨done, [], s₁, split, accounts, Or.inr ⟨rfl, opened, rfl, all, removed⟩⟩

/-! ## Every database belongs to a schema -/

section
variable {schemas done rest : List IsarSchema} {s s₁ s' : Storage}

theorem lastNamed_of_mem (names : (done.map IsarSchema.name).Nodup) {c : IsarSchema}
    (mem : c ∈ done) : lastNamed done c.name = some c := by
  cases found : lastNamed done c.name with
  | none => exact absurd rfl (lastNamed_eq_none found c mem)
  | some c' =>
    obtain ⟨mem', named⟩ := lastNamed_eq_some found
    rw [List.inj_on_of_nodup_map names mem' mem named]

/-- Behind the loop. -/
theorem accounted_of_accounts (names : (done.map IsarSchema.name).Nodup)
    (verified : ∀ c ∈ done, c.Verified) (accounted : s.Accounted)
    (accounts : Accounts (fun name => s.info.find name) done s s₁) : s₁.Accounted := by
  have stored (c : IsarSchema) (mem : c ∈ done) :
      s₁.info.find c.name = some (savedSchema c (keptProperties (s.info.find c.name) c)) := by
    rw [accounts.committed.info, lastNamed_of_mem names mem]
  have stays (name : String) (absent : lastNamed done name = none) :
      s₁.info.find name = s.info.find name := by
    rw [accounts.committed.info, absent]
  refine ⟨fun db there => ?_, fun db there => ?_⟩
  · rcases (accounts.primary db).mp there with ⟨c, mem, -, rfl⟩ | there
    · exact ⟨_, stored c mem⟩
    · cases found : lastNamed done db with
      | none =>
        rw [stays db found]
        exact accounted.primary db there
      | some c =>
        obtain ⟨mem, rfl⟩ := lastNamed_eq_some found
        exact ⟨_, stored c mem⟩
  · rcases accounts.index db there with ⟨c, mem, i, here, rfl⟩ | ⟨left, there⟩
    · exact ⟨c.name, _, stored c mem, i, here, rfl⟩
    · obtain ⟨name, e, old, i, here, rfl⟩ := accounted.index db there
      cases found : lastNamed done name with
      | none => exact ⟨name, e, (stays name found).trans old, i, here, rfl⟩
      | some c =>
        obtain ⟨mem, rfl⟩ := lastNamed_eq_some found
        -- an index that is not dropped is one of the new schema
        have kept : i ∈ c.indexes := by
          by_contra gone
          refine left c mem (mem_droppedDbs.mpr ⟨e, old, i.name, ?_, rfl⟩)
          exact (IsarSchema.mem_dropIndexes (verified c mem).indexes).mpr
            ⟨i, here, rfl, fun again => absurd again gone⟩
        exact ⟨c.name, _, stored c mem, i, kept, rfl⟩

/-- Behind the removal of collections. -/
theorem accounted_of_removed {refused : TxnFaults} {removed : List IsarSchema}
    (known : ∀ c ∈ removed, s₁.info.find c.name = some c) (accounted : s₁.Accounted)
    (h : removed.foldlM (deleteCollection refused) s₁ = .ok s') : s'.Accounted := by
  obtain ⟨primary, index⟩ := takes_of_removed h
  have info := (removed_of_foldlM h).info
  refine ⟨fun db there => ?_, fun db there => ?_⟩
  · obtain ⟨stays, there⟩ := (primary db).mp there
    rw [info, if_neg stays]
    exact accounted.primary db there
  · obtain ⟨stays, there⟩ := index db there
    obtain ⟨name, e, stored, i, here, rfl⟩ := accounted.index db there
    refine ⟨name, e, ?_, i, here, rfl⟩
    rw [info, if_neg]
    · exact stored
    · intro listed
      obtain ⟨c, mem, rfl⟩ := List.mem_map.mp listed
      obtain rfl := Option.some.inj ((known c mem).symm.trans stored)
      exact stays c mem (List.mem_map_of_mem here)

/-- A collection that is removed is stored behind the loop as it was. -/
theorem known_of_accounts (accounts : Accounts (fun name => s.info.find name) schemas s s₁)
    {c : IsarSchema}
    (mem : c ∈ s.schemas.filter fun c => !schemas.any fun schema => schema.name == c.name) :
    (∀ c' ∈ schemas, c'.name ≠ c.name) ∧ s₁.info.find c.name = some c := by
  obtain ⟨stored, missing⟩ := List.mem_filter.mp mem
  have absent : ∀ c' ∈ schemas, c'.name ≠ c.name := by
    simpa using missing
  refine ⟨absent, ?_⟩
  have none_ : lastNamed schemas c.name = none := by
    cases found : lastNamed schemas c.name with
    | none => rfl
    | some c' =>
      obtain ⟨mem', named⟩ := lastNamed_eq_some found
      exact absurd named (absent c' mem')
  rw [accounts.committed.info, none_]
  exact Storage.find_info_of_mem stored

theorem accounted_of_performMigration {refused : Faults}
    {r : Result (List (NativeCollection × Int64))}
    (verified : IsarSchema.verifySchemas schemas = .ok ())
    (names : (schemas.map IsarSchema.name).Nodup) (accounted : s.Accounted)
    (h : performMigration refused schemas s = (s', r)) : s'.Accounted := by
  obtain ⟨done, rest, s₁, split, accounts, ends⟩ := accounts_of_performMigration h
  have verified := IsarSchema.verified_of_verifySchemas verified
  have namesDone : (done.map IsarSchema.name).Nodup := by
    rw [split, List.map_append] at names
    exact names.of_append_left
  have loop := accounted_of_accounts namesDone
    (fun c mem => verified c (by rw [split]; exact List.mem_append_left _ mem)) accounted accounts
  rcases ends with ⟨rfl, -⟩ | ⟨rfl, cols, -, -, removed⟩
  · exact loop
  · rw [List.append_nil] at split
    subst split
    exact accounted_of_removed (fun c mem => (known_of_accounts accounts mem).2) loop removed

end

/-! ## The names of the databases -/

/-- The names of the databases of these schemas. -/
def schemaDbs (schemas : List IsarSchema) : List Db :=
  "_info" :: (schemas.filter fun c => !c.embedded).flatMap fun c =>
    c.name :: c.indexes.map fun i => indexDb c.name i.name

section
variable {schemas : List IsarSchema} {s s' : Storage}

theorem mem_schemaDbs {db : Db} : db ∈ schemaDbs schemas ↔ db = "_info" ∨
    ∃ c ∈ schemas, c.embedded = false ∧
      (db = c.name ∨ ∃ i ∈ c.indexes, db = indexDb c.name i.name) := by
  simp only [schemaDbs, List.mem_cons, List.mem_flatMap, List.mem_filter, List.mem_map,
    Bool.not_eq_true', and_assoc, eq_comm (a := db)]

theorem schemaDbs_nodup (verified : IsarSchema.verifySchemas schemas = .ok ())
    (names : (schemas.map IsarSchema.name).Nodup) (unambiguous : Unambiguous schemas) :
    (schemaDbs schemas).Nodup := by
  have all := (databaseNames_nodup_iff verified names).mpr unambiguous
  have some_ : (schemas.filter fun c => !c.embedded).Sublist schemas := List.filter_sublist
  have fewer : ("_info" :: ((schemas.filter fun c => !c.embedded).map IsarSchema.name ++
      (schemas.filter fun c => !c.embedded).flatMap fun c =>
        c.indexes.map fun i => indexDb c.name i.name)).Sublist (databaseNames schemas) :=
    ((some_.map _).append (some_.flatMap _)).cons_cons _
  have perm (l : List IsarSchema) :
      (l.map IsarSchema.name ++ l.flatMap fun c => c.indexes.map fun i => indexDb c.name i.name).Perm
        (l.flatMap fun c => c.name :: c.indexes.map fun i => indexDb c.name i.name) := by
    have parts := List.flatMap_append_perm l (fun c => [c.name])
      fun c => c.indexes.map fun i => indexDb c.name i.name
    rwa [← List.map_eq_flatMap] at parts
  exact ((perm _).cons _).nodup_iff.mp (all.sublist fewer)

/-- The check looks for the databases of the schemas. -/
theorem verifiedNames_eq {cols : List (NativeCollection × Int64)}
    (keyed : ∀ c ∈ schemas, c.embedded = c.idName.isNone)
    (opened : List.Forall₂ (fun c col => OpenedAs c col.1) schemas cols) :
    verifiedNames (cols.map Prod.fst) = schemaDbs schemas := by
  unfold verifiedNames schemaDbs
  congr 1
  induction opened with
  | nil => rfl
  | @cons c col schemas cols first _ ih =>
    have rest := ih fun c mem => keyed c (List.mem_cons_of_mem _ mem)
    have kind : col.1.isEmbedded = c.embedded := by
      rw [NativeCollection.isEmbedded, first.idName, keyed c List.mem_cons_self]
    have own : (col.1.indexes.map fun index => indexDb col.1.name index.name) =
        c.indexes.map fun i => indexDb c.name i.name := by
      have names := congrArg (List.map (indexDb c.name)) first.indexes
      rw [List.map_map, List.map_map] at names
      rw [first.name]
      exact names
    rw [List.map_cons, List.filter_cons, List.filter_cons, kind]
    cases c.embedded with
    | true => exact rest
    | false =>
      rw [Bool.not_false, if_pos rfl, if_pos rfl, List.flatMap_cons, List.flatMap_cons, own,
        first.name, rest]

theorem verifyNative_iff {dbNames : List Db} {cols : List (NativeCollection × Int64)}
    (verified : IsarSchema.verifySchemas schemas = .ok ())
    (names : (schemas.map IsarSchema.name).Nodup) (unambiguous : Unambiguous schemas)
    (keyed : ∀ c ∈ schemas, c.embedded = c.idName.isNone)
    (opened : List.Forall₂ (fun c col => OpenedAs c col.1) schemas cols)
    (listed : s.DbNames dbNames) :
    verifyNative dbNames (cols.map Prod.fst) = .ok () ↔ ∀ db, db ∈ schemaDbs schemas ↔ s.HasDb db := by
  have outcome : verifyNative dbNames (cols.map Prod.fst) = .ok () ↔
      sortNames (schemaDbs schemas) = sortNames dbNames := by
    rw [verifyNative, verifiedNames_eq keyed opened]
    split
    · next same => exact iff_of_true rfl same
    · next differ => exact iff_of_false fail_ne_ok differ
  rw [outcome, sortNames_eq_iff,
    List.perm_ext_iff_of_nodup (schemaDbs_nodup verified names unambiguous) listed.nodup]
  exact forall_congr' fun db => iff_congr Iff.rfl (listed.mem db)

/-! ## Behind a migration -/

theorem indexes_of_embedded (verified : IsarSchema.verifySchemas schemas = .ok ()) {c : IsarSchema}
    (mem : c ∈ schemas) (embedded : c.embedded = true) : c.indexes = [] := by
  obtain ⟨_, -, h⟩ := bind_eq_ok.mp (IsarSchema.forM_eq_ok verified c mem)
  obtain ⟨_, refused, -⟩ := bind_eq_ok.mp h
  by_contra some_
  exact IsarSchema.of_refuse refused ⟨embedded, some_⟩

/-- The databases of the schemas are there behind a migration. -/
theorem present_of_performMigration {refused : Faults} {cols : List (NativeCollection × Int64)}
    (names : (schemas.map IsarSchema.name).Nodup)
    (unambiguous : Unambiguous (s.schemas ++ schemas))
    (h : performMigration refused schemas s = (s', .ok cols)) : ∀ c ∈ schemas, Present s' c := by
  intro c mem
  obtain ⟨done, rest, s₁, rfl, committed, ends⟩ := parts_of_performMigration h
  rcases ends with ⟨-, e, failed⟩ | ⟨rfl, cols', eq, loop, removed⟩
  · cases failed
  · rw [List.append_nil] at *
    have present := present_of_migrateSchemas
      (by simpa using unambiguous : Unambiguous (s.schemas ++ ([] ++ done)))
      (by simpa using names) (by simp) loop c (by simpa using mem)
    have gone (e : IsarSchema) (memE : e ∈ s.schemas.filter fun c =>
        !done.any fun schema => schema.name == c.name) : c.name ≠ e.name := by
      have missing := (List.mem_filter.mp memE).2
      have absent : ∀ c' ∈ done, c'.name ≠ e.name := by simpa using missing
      exact absent c mem
    exact present.of_removed gone (fun e memE i there i' there' => unambiguous.apart
      (List.mem_append_right _ mem) (List.mem_append_left _ (List.mem_filter.mp memE).1)
      (gone e memE) there there') removed

/-- A migration neither makes nor drops a primary database for an embedded schema. -/
theorem primary_of_performMigration {refused : Faults} {cols : List (NativeCollection × Int64)}
    (names : (schemas.map IsarSchema.name).Nodup)
    (h : performMigration refused schemas s = (s', .ok cols)) {c : IsarSchema} (mem : c ∈ schemas)
    (embedded : c.embedded = true) : (s'.primary c.name).isSome ↔ (s.primary c.name).isSome := by
  obtain ⟨done, rest, s₁, rfl, accounts, ends⟩ := accounts_of_performMigration h
  rcases ends with ⟨-, e, failed⟩ | ⟨rfl, cols', -, -, removed⟩
  · cases failed
  · rw [List.append_nil] at *
    have stays : c.name ∉ (s.schemas.filter fun c =>
        !done.any fun schema => schema.name == c.name).map IsarSchema.name := by
      intro listed
      obtain ⟨e, memE, same⟩ := List.mem_map.mp listed
      exact (known_of_accounts accounts memE).1 c mem same.symm
    have new : ¬ ∃ c' ∈ done, c'.embedded = false ∧ c.name = c'.name := by
      rintro ⟨c', mem', stored, same⟩
      rw [List.inj_on_of_nodup_map names mem' mem same.symm, embedded] at stored
      cases stored
    rw [(takes_of_removed removed).1, accounts.primary]
    exact ⟨fun there => there.2.resolve_left new, fun there => ⟨stays, Or.inr there⟩⟩

/-- What is there behind a migration belongs to its collections, or to an embedded one. -/
theorem hasDb_of_performMigration {refused : Faults} {cols : List (NativeCollection × Int64)}
    (verified : IsarSchema.verifySchemas schemas = .ok ())
    (names : (schemas.map IsarSchema.name).Nodup) (accounted : s.Accounted)
    (h : performMigration refused schemas s = (s', .ok cols)) {db : Db} (there : s'.HasDb db) :
    db ∈ schemaDbs schemas ∨ ∃ c ∈ schemas, c.embedded = true ∧ db = c.name ∧
      (s'.primary c.name).isSome := by
  have accounted' := accounted_of_performMigration verified names accounted h
  rcases there with rfl | there | there
  · exact Or.inl List.mem_cons_self
  · obtain ⟨e, stored⟩ := accounted'.primary db there
    obtain ⟨c, mem, rfl⟩ := (isSome_iff_of_performMigration h db).mp (stored ▸ rfl)
    cases embedded : c.embedded with
    | true => exact Or.inr ⟨c, mem, embedded, rfl, there⟩
    | false => exact Or.inl (mem_schemaDbs.mpr (Or.inr ⟨c, mem, embedded, Or.inl rfl⟩))
  · obtain ⟨name, e, stored, i, here, rfl⟩ := accounted'.index db there
    obtain ⟨c, mem, rfl⟩ := (isSome_iff_of_performMigration h name).mp (stored ▸ rfl)
    obtain ⟨c', mem', same, properties, stored'⟩ :=
      ((migrated_of_performMigration h).2 cols rfl).2 c mem
    obtain rfl := List.inj_on_of_nodup_map names mem' mem same
    cases stored.symm.trans stored'
    have here : i ∈ c'.indexes := here
    cases embedded : c'.embedded with
    | true =>
      rw [indexes_of_embedded verified mem embedded] at here
      cases here
    | false => exact Or.inl (mem_schemaDbs.mpr (Or.inr ⟨c', mem, embedded, Or.inr ⟨i, here, rfl⟩⟩))

theorem hasDb_of_mem (present : ∀ c ∈ schemas, Present s c) {db : Db}
    (mem : db ∈ schemaDbs schemas) : s.HasDb db := by
  rcases mem_schemaDbs.mp mem with rfl | ⟨c, memC, embedded, rfl | ⟨i, here, rfl⟩⟩
  · exact Or.inl rfl
  · exact Or.inr (Or.inl ((present c memC).primary embedded))
  · exact Or.inr (Or.inr ((present c memC).index i here))

/-- The name of an embedded schema is the name of no database. -/
theorem name_notMem_schemaDbs (verified : IsarSchema.verifySchemas schemas = .ok ())
    (names : (schemas.map IsarSchema.name).Nodup) {c : IsarSchema} (mem : c ∈ schemas)
    (embedded : c.embedded = true) : c.name ∉ schemaDbs schemas := by
  have head := head?_name_of_verify (IsarSchema.forM_eq_ok verified c mem)
  intro listed
  rcases mem_schemaDbs.mp listed with same | ⟨c', mem', stored, same | ⟨i, -, same⟩⟩
  · rw [same] at head
    exact head rfl
  · rw [List.inj_on_of_nodup_map names mem' mem same.symm, embedded] at stored
    cases stored
  · rw [same] at head
    exact head (head?_indexDb c'.name i.name)

end

/-! ## Runs -/

section
variable {xxh3_64 : Bytes → UInt64} {d d' : Database} {event : Event}

theorem accounted_new : Database.new.storage.Accounted where
  primary := by
    rintro db ⟨⟩
  index := by
    rintro db ⟨⟩

theorem accounted_of_step (accounted : d.storage.Accounted)
    (h : Database.Step xxh3_64 d event d') : d'.storage.Accounted := by
  cases h with
  | abort => exact accounted
  | commit opened done =>
    refine ⟨fun db there => accounted.primary db ?_, fun db there => accounted.index db ?_⟩
    · simpa [Storage.commitTxn] using there
    · simpa [Storage.commitTxn] using there
  | migrate verified names done => exact accounted_of_performMigration verified names accounted done
  | fail verified names failed => exact accounted_of_performMigration verified names accounted failed

/-- A transaction on a collection, or one that is rolled back. -/
def Operates (xxh3_64 : Bytes → UInt64) (d : Database) (event : Event) (d' : Database) : Prop :=
  Database.Step xxh3_64 d event d' ∧ ∃ collection operations, event = .operate collection operations

/-- Transactions open and drop no database. -/
theorem hasDb_of_operations {events : List Event} (run : Run (Operates xxh3_64) d events d') :
    d'.collections = d.collections ∧ ∀ db, d'.storage.HasDb db ↔ d.storage.HasDb db := by
  induction run with
  | nil => exact ⟨rfl, fun _ => Iff.rfl⟩
  | cons one _ ih =>
    obtain ⟨step, collection, operations, rfl⟩ := one
    cases step with
    | abort => exact ih
    | commit opened done =>
      refine ⟨ih.1, fun db => (ih.2 db).trans ?_⟩
      simp [Storage.HasDb, Storage.commitTxn]

/-- After an opening, and transactions behind it, `verify_native` finds the databases right exactly if
no collection that is embedded now has left its database behind. -/
theorem verify_native_exact {before after : Database} {events operations : List Event}
    (run : Run (Database.Step xxh3_64) Database.new events before) {refused : Faults}
    {schemas : List IsarSchema} {storage : Storage} {cols : List (NativeCollection × Int64)}
    (verified : IsarSchema.verifySchemas schemas = .ok ())
    (names : (schemas.map IsarSchema.name).Nodup)
    (unambiguous : Unambiguous (before.storage.schemas ++ schemas))
    (keyed : ∀ c ∈ schemas, c.embedded = c.idName.isNone)
    (opened : performMigration refused schemas before.storage = (storage, .ok cols))
    (later : Run (Operates xxh3_64) ⟨storage, cols.map Prod.fst⟩ operations after)
    {dbNames : List Db} (listed : after.storage.DbNames dbNames) :
    verifyNative dbNames after.collections = .ok () ↔
      ∀ c ∈ schemas, c.embedded = true → before.storage.primary c.name = none := by
  have accounted : before.storage.Accounted :=
    run.invariant (fun _ _ _ accounted one => accounted_of_step accounted one) accounted_new
  have own : Unambiguous schemas := fun c mem c' mem' =>
    unambiguous c (List.mem_append_right _ mem) c' (List.mem_append_right _ mem')
  obtain ⟨same, kept⟩ := hasDb_of_operations later
  have all : List.Forall₂ (fun c col => OpenedAs c col.1) schemas cols := by
    obtain ⟨done, rest, s₁, -, -, ends⟩ := accounts_of_performMigration opened
    rcases ends with ⟨-, e, failed⟩ | ⟨-, cols', eq, all, -⟩
    · cases failed
    · cases eq
      exact all
  have listed' : storage.DbNames dbNames :=
    ⟨listed.nodup, fun db => (listed.mem db).trans (kept db)⟩
  rw [same, verifyNative_iff verified names own keyed all listed']
  constructor
  · intro right c mem embedded
    by_contra left
    have there : (storage.primary c.name).isSome :=
      (primary_of_performMigration names opened mem embedded).mpr (Option.isSome_iff_ne_none.mpr left)
    exact name_notMem_schemaDbs verified names mem embedded
      ((right c.name).mpr (Or.inr (Or.inl there)))
  · intro none_ db
    refine ⟨hasDb_of_mem (present_of_performMigration names unambiguous opened), fun there => ?_⟩
    refine (hasDb_of_performMigration verified names accounted opened there).resolve_right ?_
    rintro ⟨c, mem, embedded, rfl, left⟩
    rw [primary_of_performMigration names opened mem embedded, none_ c mem embedded] at left
    cases left

end

def ships : List IsarSchema := Sqlite.shipSchemas [Sqlite.shipIndex]

/-- Positions as a collection of their own. -/
def storedPosition : IsarSchema where
  name := "Position"
  idName := some "id"
  embedded := false
  properties := [⟨some "latitude", .double, none⟩, ⟨some "longitude", .double, none⟩]
  indexes := []
  version := 0

/-- The storage behind an opening with ships and their positions. -/
def shipStorage : Storage := (performMigration noFaults ships Database.new.storage).1

/-- The storage behind an opening in which positions are a collection. -/
def positionStorage : Storage := (performMigration noFaults [storedPosition] Database.new.storage).1

theorem dbNames_ships : shipStorage.DbNames ["Ship", "_Ship_name", "_info"] := by
  have primary : shipStorage.primary = Function.update (fun _ => none) "Ship" (some .empty) := rfl
  have index : shipStorage.index = Function.update (fun _ => none) "_Ship_name" (some .empty) := rfl
  refine ⟨by decide, fun db => ?_⟩
  rw [Storage.HasDb, primary, index]
  simp only [Function.update_apply, List.mem_cons, List.not_mem_nil, or_false]
  split <;> split <;> simp_all

theorem unambiguous_positions : Unambiguous (positionStorage.schemas ++ ships) := by
  have schemas : positionStorage.schemas = [savedSchema storedPosition storedPosition.properties] := by
    decide +kernel
  intro c mem c' _ index there index' _ rest _ eq
  -- the only index is that of the names of the ships
  have named : index.name = "name" := by
    rw [schemas] at mem
    rcases List.mem_append.mp mem with mem | mem
    · cases List.mem_singleton.mp mem
      cases there
    · rcases List.mem_cons.mp mem with rfl | mem
      · cases List.mem_singleton.mp there
        rfl
      · cases List.mem_singleton.mp mem
        cases there
  have listed : '_' ∈ "name".toList := by
    rw [← named, eq]
    simp
  revert listed
  decide

/-- The ships are accepted in a new database, and refused where positions were a collection before. -/
theorem verify_native_exact_on_ships :
    (∃ cols, performMigration noFaults ships Database.new.storage = (shipStorage, .ok cols) ∧
      verifyNative ["Ship", "_Ship_name", "_info"] (cols.map Prod.fst) = .ok ()) ∧
    ∃ cols, (performMigration noFaults ships positionStorage).2 = .ok cols ∧
      ∀ dbNames, (performMigration noFaults ships positionStorage).1.DbNames dbNames →
        verifyNative dbNames (cols.map Prod.fst) ≠ .ok () := by
  constructor
  · obtain ⟨cols, opened, -⟩ := exists_of_succeedsWith
      (performMigration noFaults ships Database.new.storage).2 (fun _ => true) (by decide +kernel)
    have opened : performMigration noFaults ships Database.new.storage = (shipStorage, .ok cols) :=
      Prod.ext rfl opened
    have single : Unambiguous ships := (unambiguous_iff (by decide)).mpr (by decide)
    refine ⟨cols, opened, (@verify_native_exact (fun _ => 0) Database.new
      ⟨shipStorage, cols.map Prod.fst⟩ [] [] .nil noFaults ships shipStorage cols rfl (by decide)
      single (by decide) opened .nil _ dbNames_ships).mpr ?_⟩
    exact fun _ _ _ => rfl
  · obtain ⟨positions, created, -⟩ := exists_of_succeedsWith
      (performMigration noFaults [storedPosition] Database.new.storage).2 (fun _ => true)
      (by decide +kernel)
    obtain ⟨cols, opened, -⟩ := exists_of_succeedsWith
      (performMigration noFaults ships positionStorage).2 (fun _ => true) (by decide +kernel)
    refine ⟨cols, opened, fun dbNames listed right => ?_⟩
    have run : Run (Database.Step fun _ => 0) Database.new [.migrate noFaults [storedPosition]]
        ⟨positionStorage, positions.map Prod.fst⟩ :=
      .cons (@Database.Step.migrate _ _ noFaults [storedPosition] positionStorage positions rfl
        (by decide) (Prod.ext rfl created)) .nil
    have dropped : positionStorage.primary "Position" = none :=
      (@verify_native_exact (fun _ => 0) _ ⟨_, cols.map Prod.fst⟩ _ [] run noFaults ships _ cols rfl
        (by decide) unambiguous_positions (by decide) (Prod.ext rfl opened) .nil _ listed).mp right
        _ (List.mem_cons_of_mem _ List.mem_cons_self) rfl
    have left : (positionStorage.primary "Position").isSome = true := by decide +kernel
    rw [dropped] at left
    cases left

end IsarPlus.Native
