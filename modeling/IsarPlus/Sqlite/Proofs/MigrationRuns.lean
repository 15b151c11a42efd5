import IsarPlus.Sqlite.Proofs.Migration

/-!
# Opening a SQLite database again

What `perform_migration` leaves is read back as it was asked for, and is left alone when it is opened
again, exactly if the names of all indexes survive `read_col_schema`.
-/

namespace IsarPlus.Sqlite
open IsarSchema

/-! ## One collection -/

/-- The table of the collection is as the collection says, its indexes can be told from their names,
and the other tables are as they were. -/
structure Brought (db db' : Catalog) (c : IsarSchema) : Prop where
  valid : db'.Valid
  shown : ∃ t ∈ db', t.name = c.name ∧ t.Shows c ∧ t.Named
  others : ∀ t : Table, t.name ≠ c.name → (t ∈ db' ↔ t ∈ db)

section
variable {refused : Catalog → SchemaStatement → Bool} {db db' : Catalog} {c : IsarSchema}
  {statements : List SchemaStatement}

theorem properties_names_nodup {t : Table} (nodup : (t.columns.map Prod.fst).Nodup) :
    (t.properties.map PropertySchema.name).Nodup := by
  have eq : t.properties.map PropertySchema.name =
      ((t.columns.filter fun c => c.1 ≠ idColumn).map Prod.fst).map some := by
    simp [Table.properties, readColumn]
  rw [eq]
  apply List.Nodup.map (Option.some_injective _)
  exact nodup.sublist (List.Sublist.map _ List.filter_sublist)

/-- What an update makes of the properties of a table. -/
theorem properties_updated (t : Table) {table : String} {changes : Changes}
    {columns : List (String × String)} (noId : ∀ col ∈ columns, col.1 ≠ idColumn) :
    (t.updated table changes columns).properties =
      (t.properties.filter fun p => p.name ∉ changes.dropProperties.map some) ++
        columns.map readColumn := by
  have new : (columns.filter fun col => col.1 ≠ idColumn) = columns :=
    List.filter_eq_self.mpr fun col mem => by simpa using noId col mem
  unfold Table.properties Table.updated
  rw [List.filter_append, new, List.map_append, List.filter_map, List.filter_filter,
    List.filter_filter]
  congr 2
  apply List.filter_congr
  intro col _
  have iff : some col.1 ∈ changes.dropProperties.map some ↔ col.1 ∈ changes.dropProperties :=
    List.mem_map_of_injective (Option.some_injective _)
  simp only [readColumn, Function.comp_apply, iff]
  exact Bool.and_comm _ _

/-- What is left of the indexes of a table is what is left of what is read from it. -/
theorem map_readIndex_filter {t : Table} (good : t.Named) (drops : List String) :
    (t.indexes.filter fun i => i.name ∉ drops.map (indexName t.name)).map readIndex =
      (t.indexes.map readIndex).filter fun i => i.name ∉ drops := by
  rw [List.filter_map]
  congr 1
  apply List.filter_congr
  intro i mem
  have iff : i.name ∈ drops.map (indexName t.name) ↔ (readIndex i).name ∈ drops := by
    rw [good i mem, List.mem_map_of_injective fun _ _ => indexName_inj.mp]
    rfl
  simp [iff]

theorem map_readIndex_reverse (plain : PlainIndexes c) {indexes : List IndexSchema}
    (sub : ∀ i ∈ indexes, i ∈ c.indexes) :
    ((indexes.map (sqlIndex c.name)).reverse.map readIndex).Perm indexes := by
  rw [List.map_reverse, List.map_map]
  refine (List.reverse_perm _).trans ?_
  have same : indexes.map (readIndex ∘ sqlIndex c.name) = indexes.map id :=
    List.map_congr_left fun i mem => readIndex_sqlIndex plain (sub i mem)
  rw [same, List.map_id]

theorem named_sqlIndex (plain : PlainIndexes c) {i : IndexSchema} (mem : i ∈ c.indexes) :
    (sqlIndex c.name i).name = indexName c.name (lastPiece (sqlIndex c.name i).name) := by
  show indexName c.name i.name = indexName c.name (lastPiece (indexName c.name i.name))
  rw [lastPiece_indexName (plain i mem).2]

theorem filter_isSome_properties (t : Table) :
    (t.properties.filter fun p => p.name.isSome) = t.properties :=
  filter_isSome_map_readColumn _

theorem idColumn_notMem_properties {t : Table} {p : PropertySchema} (mem : p ∈ t.properties) :
    p.name ≠ some idColumn := by
  obtain ⟨col, there, rfl⟩ := List.mem_map.mp mem
  have ne : col.1 ≠ idColumn := by simpa using (List.mem_filter.mp there).2
  simpa [readColumn] using ne

/-- A table whose indexes have the names they should have is brought up to date. -/
theorem shows_updated (verified : c.Verified) (decodes : Decodes c) (plain : PlainIndexes c)
    {t : Table} (columnNames : (t.columns.map Prod.fst).Nodup)
    (indexNames : (t.indexes.map SqlIndex.name).Nodup) (name : t.name = c.name) (good : t.Named)
    (id : idColumn ∈ t.columns.map Prod.fst) {old : IsarSchema}
    (properties : old.properties = t.properties) (indexes : old.indexes = t.indexes.map readIndex)
    {columns : List (String × String)}
    (declared : (c.findChanges old).addProperties.mapM column = some columns) {left : Table}
    (leftColumns : left.columns = t.columns)
    (leftIndexes : left.indexes = t.indexes.filter fun i =>
      i.name ∉ (c.findChanges old).dropIndexes.map (indexName c.name)) :
    (left.updated c.name (c.findChanges old) columns).Shows c := by
  have named : old.named = t.properties := by
    rw [IsarSchema.named, properties, filter_isSome_properties]
  have oldNames : (old.named.map PropertySchema.name).Nodup := by
    rw [named]
    exact properties_names_nodup columnNames
  have oldIndexes : (old.indexes.map IndexSchema.name).Nodup := by
    rw [indexes]
    exact good.names_nodup indexNames
  have propertiesPerm := perm_properties oldNames verified.properties
  have indexesPerm := perm_indexes oldIndexes verified.indexes
  have added (p : PropertySchema) (mem : p ∈ (c.findChanges old).addProperties) :
      p ∈ c.properties :=
    (List.mem_filter.mp (propertiesPerm.subset (List.mem_append_right _ mem))).1
  obtain ⟨read, noId⟩ := map_readColumn_of_mapM verified decodes added declared
  refine ⟨?_, ?_, ?_⟩
  · obtain ⟨col, mem, eq⟩ := List.mem_map.mp id
    refine List.mem_map.mpr ⟨col, List.mem_append_left _ (List.mem_filter.mpr ⟨?_, ?_⟩), eq⟩
    · rw [leftColumns]
      exact mem
    · rw [decide_eq_true_iff, eq]
      intro dropped
      obtain ⟨p, there, same⟩ := List.mem_map.mp (dropProperties_sub c old _ dropped)
      rw [named] at there
      exact idColumn_notMem_properties there same
  · have leftProperties : left.properties = t.properties := by
      rw [Table.properties, leftColumns, Table.properties]
    rw [properties_updated left noId, read, leftProperties, ← named]
    exact propertiesPerm
  · have kept : left.indexes.map readIndex =
        old.indexes.filter fun i => i.name ∉ (c.findChanges old).dropIndexes := by
      rw [leftIndexes, ← name, map_readIndex_filter good, indexes]
    show (((c.findChanges old).addIndexes.map (sqlIndex c.name)).reverse ++
      left.indexes |>.map readIndex).Perm c.indexes
    rw [List.map_append, kept]
    refine List.perm_append_comm.trans (List.Perm.trans (List.Perm.append_left _ ?_) indexesPerm)
    exact map_readIndex_reverse plain fun i mem =>
      indexesPerm.subset (List.mem_append_right _ mem)

theorem named_append {t : Table} (plain : PlainIndexes c) (name : t.name = c.name)
    {new : List IndexSchema} (sub : ∀ i ∈ new, i ∈ c.indexes) {old : List SqlIndex}
    (good : ∀ i ∈ old, i.name = indexName t.name (lastPiece i.name))
    (indexes : t.indexes = (new.map (sqlIndex c.name)).reverse ++ old) : t.Named := by
  intro i mem
  rw [indexes, List.mem_append, List.mem_reverse, List.mem_map] at mem
  rcases mem with ⟨j, there, rfl⟩ | there
  · rw [name]
    exact named_sqlIndex plain (sub j there)
  · exact good i there

/-- Updating a table. -/
theorem brought_of_update (valid : db.Valid) (verified : c.Verified) (decodes : Decodes c)
    (plain : PlainIndexes c) (good : ∀ t ∈ db, t.name = c.name → t.Named)
    (plan : updateTable db c = some statements)
    (run : db.run (Catalog.exec refused) statements = some db') :
    Brought db db' c := by
  obtain ⟨old, columns, read, declared, valid', rfl⟩ := run_updateTable valid plan run
  obtain ⟨t, mem, name, id, rfl⟩ := (readColSchema_eq_some valid).mp read
  have goodT := good t mem name
  let drops := (c.findChanges
    { name := c.name, idName := none, embedded := false, properties := t.properties,
      indexes := t.indexes.map readIndex, version := 0 }).dropIndexes
  have sub : ∀ x ∈ drops, x ∈ (t.indexes.map readIndex).map IndexSchema.name :=
    fun x => IsarSchema.dropIndexes_sub_names c _
  let left : Table :=
    { t with indexes := t.indexes.filter fun i => i.name ∉ drops.map (indexName c.name) }
  have leftMem : left ∈ db.dropIndexes (drops.map (indexName c.name)) :=
    List.mem_map.mpr ⟨t, mem, rfl⟩
  refine ⟨valid', ⟨_, Catalog.mem_modify leftMem name, name, ?_, ?_⟩, fun t' ne => ?_⟩
  · exact shows_updated verified decodes plain (valid.columns t mem) (valid.indexes t mem) name
      goodT id rfl rfl declared rfl rfl
  · refine named_append plain name (fun i added => ?_) (fun i there => ?_) rfl
    · exact (perm_indexes (goodT.names_nodup (valid.indexes t mem)) verified.indexes).subset
        (List.mem_append_right _ added)
    · exact goodT i (List.mem_filter.mp there).1
  · -- another table keeps its indexes, which have other names
    refine ⟨fun there => ?_, fun there => ?_⟩
    · rcases Catalog.of_mem_modify there with ⟨there, -⟩ | ⟨t₀, -, name₀, rfl⟩
      · obtain ⟨t₀, mem₀, rfl⟩ := List.mem_map.mp there
        have same := dropIndexes_of_ne valid mem name goodT sub mem₀ ne
        show { t₀ with indexes := _ } ∈ db
        rw [same]
        exact mem₀
      · exact absurd name₀ ne
    · apply Catalog.mem_modify_of_ne _ ne
      refine List.mem_map.mpr ⟨t', there, ?_⟩
      rw [dropIndexes_of_ne valid mem name goodT sub there ne]

/-- The table of a collection before its indexes are created. -/
def created (table : String) (columns : List (String × String)) : Table :=
  { name := table, columns := (idColumn, "INTEGER") :: columns, indexes := [] }

/-- What creating a table with its indexes does to the catalog. -/
theorem run_createTable (valid : db.Valid) {create : SchemaStatement}
    (plan : createTableSql c = some create)
    (run : db.run (Catalog.exec refused) (create :: c.indexes.map (createIndexSql c.name)) =
      some db') :
    ∃ columns, c.named.mapM column = some columns ∧ c.name ∉ db.tableNames ∧ db'.Valid ∧
      db' = Catalog.modify (db ++ [created c.name columns]) c.name fun t =>
        { t with indexes := (c.indexes.map (sqlIndex c.name)).reverse ++ t.indexes } := by
  unfold createTableSql at plan
  simp only [Option.bind_eq_bind, Option.bind_eq_some_iff, Option.pure_def,
    Option.some.injEq] at plan
  obtain ⟨columns, declared, rfl⟩ := plan
  have valid' := Catalog.valid_run valid run
  obtain ⟨db₁, first, rest⟩ := Catalog.run_cons.mp run
  obtain ⟨fresh, -, rfl⟩ := Catalog.exec_createTable first
  have creates : c.indexes.map (createIndexSql c.name) =
      (c.indexes.map (sqlIndex c.name)).map (SchemaStatement.createIndex c.name) := by
    rw [List.map_map]
    rfl
  rw [creates] at rest
  obtain rfl := Catalog.run_createIndexes rest
  exact ⟨columns, declared, fresh, valid', rfl⟩

/-- Creating a table. -/
theorem brought_of_create (valid : db.Valid) (verified : c.Verified) (decodes : Decodes c)
    (plain : PlainIndexes c) {create : SchemaStatement} (plan : createTableSql c = some create)
    (run : db.run (Catalog.exec refused) (create :: c.indexes.map (createIndexSql c.name)) =
      some db') :
    Brought db db' c := by
  obtain ⟨columns, declared, fresh, valid', rfl⟩ := run_createTable valid plan run
  obtain ⟨read, noId⟩ := map_readColumn_of_mapM verified decodes
    (fun p mem => (List.mem_filter.mp mem).1) declared
  have newMem : created c.name columns ∈ db ++ [created c.name columns] :=
    List.mem_append_right _ List.mem_cons_self
  refine ⟨valid', ⟨_, Catalog.mem_modify newMem rfl, rfl, ⟨?_, ?_, ?_⟩, ?_⟩, fun t ne => ?_⟩
  · exact List.mem_cons_self
  · have others : (columns.filter fun col => col.1 ≠ idColumn) = columns :=
      List.filter_eq_self.mpr fun col mem => by simpa using noId col mem
    show ((((idColumn, "INTEGER") :: columns).filter fun col =>
      col.1 ≠ idColumn).map readColumn).Perm c.named
    rw [List.filter_cons_of_neg (by simp), others, read]
    rfl
  · show (((c.indexes.map (sqlIndex c.name)).reverse ++ []).map readIndex).Perm c.indexes
    rw [List.append_nil]
    exact map_readIndex_reverse plain fun i mem => mem
  · exact named_append plain rfl (fun i mem => mem) (List.forall_mem_nil _) rfl
  · refine ⟨fun there => ?_, fun there => ?_⟩
    · rcases Catalog.of_mem_modify there with ⟨there, -⟩ | ⟨t₀, -, name₀, rfl⟩
      · rcases List.mem_append.mp there with there | there
        · exact there
        · exact absurd (List.mem_singleton.mp there ▸ rfl) ne
      · exact absurd name₀ ne
    · exact Catalog.mem_modify_of_ne (List.mem_append_left _ there) ne

/-- One turn of the loop. -/
theorem brought_of_migrateTable (valid : db.Valid) (verified : c.Verified) (decodes : Decodes c)
    (plain : PlainIndexes c) (good : ∀ t ∈ db, t.name = c.name → t.Named)
    (collection : c.embedded = false) {tableNames : List String}
    (plan : migrateTable tableNames db c = some statements)
    (run : db.run (Catalog.exec refused) statements = some db') : Brought db db' c := by
  unfold migrateTable at plan
  rw [if_neg (by simp [collection])] at plan
  by_cases known : c.name ∈ tableNames
  · rw [if_pos known] at plan
    exact brought_of_update valid verified decodes plain good plan run
  · rw [if_neg known] at plan
    simp only [Option.bind_eq_bind, Option.bind_eq_some_iff, Option.pure_def,
      Option.some.injEq] at plan
    obtain ⟨create, plan, rfl⟩ := plan
    exact brought_of_create valid verified decodes plain plan run

end

/-! ## The loop over the collections -/

/-- The names of the collections, without the embedded ones. -/
def collectionNames (schemas : List IsarSchema) : List String :=
  (schemas.filter fun c => !c.embedded).map IsarSchema.name

theorem isCollection_iff {schemas : List IsarSchema} {name : String} :
    isCollection schemas name = true ↔ name ∈ collectionNames schemas := by
  simp only [isCollection, collectionNames, List.any_eq_true, List.mem_map, List.mem_filter,
    Bool.and_eq_true, Bool.not_eq_true', beq_iff_eq]
  exact exists_congr fun c => ⟨fun ⟨mem, name, plain⟩ => ⟨⟨mem, plain⟩, name⟩,
    fun ⟨⟨mem, plain⟩, name⟩ => ⟨mem, name, plain⟩⟩

theorem name_mem_collectionNames {schemas : List IsarSchema} {c : IsarSchema} (mem : c ∈ schemas)
    (collection : c.embedded = false) : c.name ∈ collectionNames schemas :=
  List.mem_map.mpr ⟨c, List.mem_filter.mpr ⟨mem, by simp [collection]⟩, rfl⟩

section
variable {refused : Catalog → SchemaStatement → Bool} {db db' : Catalog} {tableNames : List String}
  {schemas : List IsarSchema} {issued : List SchemaStatement}

theorem migrateTables_cons {execute : Catalog → SchemaStatement → Option Catalog} {c : IsarSchema} :
    migrateTables execute tableNames db (c :: schemas) = some (issued, db') ↔
      ∃ statements db₁ rest, migrateTable tableNames db c = some statements ∧
        db.run execute statements = some db₁ ∧
        migrateTables execute tableNames db₁ schemas = some (rest, db') ∧
        issued = statements ++ rest := by
  simp only [migrateTables, Option.bind_eq_bind, Option.bind_eq_some_iff, Option.pure_def,
    Option.some.injEq, Prod.mk.injEq, Prod.exists]
  refine ⟨?_, ?_⟩
  · rintro ⟨statements, plan, db₁, run, rest, db₂, others, rfl, rfl⟩
    exact ⟨statements, db₁, rest, plan, run, others, rfl⟩
  · rintro ⟨statements, db₁, rest, plan, run, others, rfl⟩
    exact ⟨statements, plan, db₁, run, rest, db', others, rfl, rfl⟩

/-- What the loop needs of the schemas that it still has to process. -/
structure Migratable (db : Catalog) (schemas : List IsarSchema) : Prop where
  verified : ∀ c ∈ schemas, c.Verified
  decodes : ∀ c ∈ schemas, Decodes c
  plain : ∀ c ∈ schemas, c.embedded = false → PlainIndexes c
  named : ∀ c ∈ schemas, c.embedded = false → ∀ t ∈ db, t.name = c.name → t.Named
  distinct : (collectionNames schemas).Nodup

/-- What the loop has done. -/
structure Done (db db' : Catalog) (schemas : List IsarSchema) : Prop where
  valid : db'.Valid
  shown : ∀ c ∈ schemas, c.embedded = false →
    ∃ t ∈ db', t.name = c.name ∧ t.Shows c ∧ t.Named
  others : ∀ t : Table, t.name ∉ collectionNames schemas → (t ∈ db' ↔ t ∈ db)

theorem Migratable.tail {c : IsarSchema} (h : Migratable db (c :: schemas)) :
    Migratable db schemas where
  verified c' mem := h.verified c' (List.mem_cons_of_mem _ mem)
  decodes c' mem := h.decodes c' (List.mem_cons_of_mem _ mem)
  plain c' mem := h.plain c' (List.mem_cons_of_mem _ mem)
  named c' mem := h.named c' (List.mem_cons_of_mem _ mem)
  distinct := h.distinct.sublist (List.Sublist.map _ ((List.sublist_cons_self _ _).filter _))

/-- The collection at the head has a name of its own. -/
theorem Migratable.head_notMem {c : IsarSchema} (h : Migratable db (c :: schemas))
    (collection : c.embedded = false) : c.name ∉ collectionNames schemas := by
  have distinct := h.distinct
  rw [collectionNames, List.filter_cons_of_pos (by simp [collection]), List.map_cons,
    List.nodup_cons] at distinct
  exact distinct.1

/-- By induction on the collections: a turn of the loop brings one table up to date and leaves the
tables of the others for their own turns. -/
theorem done_of_migrateTables (valid : db.Valid) (h : Migratable db schemas)
    (run : migrateTables (Catalog.exec refused) tableNames db schemas = some (issued, db')) :
    Done db db' schemas := by
  induction schemas generalizing db issued with
  | nil =>
    cases run
    exact ⟨valid, by simp, fun t _ => Iff.rfl⟩
  | cons c schemas ih =>
    obtain ⟨statements, db₁, rest, plan, first, run, -⟩ := migrateTables_cons.mp run
    cases collection : c.embedded with
    | true =>
      have plan' : statements = [] := by simpa [migrateTable, collection] using plan.symm
      subst plan'
      cases first
      have done := ih valid h.tail run
      have names : collectionNames (c :: schemas) = collectionNames schemas := by
        rw [collectionNames, List.filter_cons_of_neg (by simp [collection]), collectionNames]
      refine ⟨done.valid, fun c' mem plain => ?_, fun t => names ▸ done.others t⟩
      rcases List.mem_cons.mp mem with rfl | mem
      · rw [collection] at plain
        cases plain
      · exact done.shown c' mem plain
    | false =>
      have self := List.mem_cons_self (a := c) (l := schemas)
      have brought := brought_of_migrateTable valid (h.verified c self) (h.decodes c self)
        (h.plain c self collection) (h.named c self collection) collection plan first
      have own := h.head_notMem collection
      have ne {c' : IsarSchema} (mem : c' ∈ schemas) (plain : c'.embedded = false) :
          c'.name ≠ c.name :=
        fun same => own (same ▸ name_mem_collectionNames mem plain)
      have next : Migratable db₁ schemas :=
        { h.tail with
          named := fun c' mem plain t there name => by
            have there' := (brought.others t (name ▸ ne mem plain)).mp there
            exact h.tail.named c' mem plain t there' name }
      have done := ih brought.valid next run
      have names : collectionNames (c :: schemas) = c.name :: collectionNames schemas := by
        rw [collectionNames, List.filter_cons_of_pos (by simp [collection]), List.map_cons,
          collectionNames]
      refine ⟨done.valid, fun c' mem plain => ?_, fun t other => ?_⟩
      · rcases List.mem_cons.mp mem with rfl | mem
        · obtain ⟨t, there, name, shows, good⟩ := brought.shown
          exact ⟨t, (done.others t (name ▸ own)).mpr there, name, shows, good⟩
        · exact done.shown c' mem plain
      · rw [names, List.mem_cons, not_or] at other
        exact (done.others t other.2).trans (brought.others t other.1)

/-! ## The whole migration -/

theorem performMigration_eq_some :
    performMigration (Catalog.exec refused) schemas db = some (issued, db') ↔
      ∃ statements db₁,
        migrateTables (Catalog.exec refused) db.tableNames db schemas = some (statements, db₁) ∧
        let drops := (db.tableNames.filter fun table => !isCollection schemas table).map
          SchemaStatement.dropTable
        db₁.run (Catalog.exec refused) drops = some db' ∧ issued = statements ++ drops := by
  simp only [performMigration, Option.bind_eq_bind, Option.bind_eq_some_iff, Option.pure_def,
    Option.some.injEq, Prod.mk.injEq, Prod.exists]
  refine ⟨?_, ?_⟩
  · rintro ⟨statements, db₁, run, db₂, drops, rfl, rfl⟩
    exact ⟨statements, db₁, run, drops, rfl⟩
  · rintro ⟨statements, db₁, run, drops, rfl⟩
    exact ⟨statements, db₁, run, db', drops, rfl, rfl⟩

/-- What a migration leaves of a catalog that the loop has brought up to date. -/
theorem mem_of_drops {db₁ : Catalog}
    (run : db₁.run (Catalog.exec refused)
      ((db.tableNames.filter fun table => !isCollection schemas table).map
      SchemaStatement.dropTable) = some db') (t : Table) :
    t ∈ db' ↔ t ∈ db₁ ∧ (t.name ∈ db.tableNames → isCollection schemas t.name = true) := by
  rw [Catalog.run_dropTables run, List.mem_filter]
  simp [imp_iff_not_or]

/-- The catalog has the collections, and nothing else. -/
structure UpToDate (db : Catalog) (schemas : List IsarSchema) : Prop where
  valid : db.Valid
  shown : ∀ c ∈ schemas, c.embedded = false → ∃ t ∈ db, t.name = c.name ∧ t.Shows c ∧ t.Named
  only : ∀ t ∈ db, isCollection schemas t.name = true

theorem upToDate_of_performMigration (valid : db.Valid) (h : Migratable db schemas)
    (run : performMigration (Catalog.exec refused) schemas db = some (issued, db')) :
    UpToDate db' schemas := by
  obtain ⟨statements, db₁, loop, drops, -⟩ := performMigration_eq_some.mp run
  have done := done_of_migrateTables valid h loop
  have left := mem_of_drops drops
  refine ⟨?_, fun c mem plain => ?_, fun t mem => ?_⟩
  · rw [Catalog.run_dropTables drops]
    exact Catalog.valid_filter done.valid _
  · obtain ⟨t, there, name, shows, good⟩ := done.shown c mem plain
    refine ⟨t, (left t).mpr ⟨there, fun _ => ?_⟩, name, shows, good⟩
    rw [isCollection_iff, name]
    exact name_mem_collectionNames mem plain
  · obtain ⟨there, known⟩ := (left t).mp mem
    by_cases collection : t.name ∈ collectionNames schemas
    · exact isCollection_iff.mpr collection
    · exact known (List.mem_map_of_mem ((done.others t collection).mp there))

/-! ## Opening it again -/

theorem updateTable_nil {c : IsarSchema} (verified : c.Verified) (readsBack : ReadsBack db c) :
    updateTable db c = some [] := by
  obtain ⟨old, read, properties, indexes⟩ := readsBack
  obtain ⟨addProperties, dropProperties⟩ := propertyChanges_nil verified.properties properties
  obtain ⟨addIndexes, dropIndexes⟩ := indexChanges_nil verified.indexes dropProperties indexes
  simp [updateTable, read, addProperties, dropProperties, addIndexes, dropIndexes]

theorem name_mem_of_readsBack {c : IsarSchema} (readsBack : ReadsBack db c) :
    c.name ∈ db.tableNames := by
  obtain ⟨old, read, -⟩ := readsBack
  unfold readColSchema at read
  cases found : db.table c.name with
  | none => simp [found] at read
  | some t =>
    have name : t.name = c.name := by simpa using List.find?_some found
    exact name ▸ List.mem_map_of_mem (List.mem_of_find?_eq_some found)

/-- Collections that are read back as they are are left alone. -/
theorem migrateTables_nil (verified : ∀ c ∈ schemas, c.Verified)
    (known : ∀ c ∈ schemas, c.embedded = false → c.name ∈ tableNames)
    (readsBack : ∀ c ∈ schemas, c.embedded = false → ReadsBack db c) :
    migrateTables (Catalog.exec refused) tableNames db schemas = some ([], db) := by
  induction schemas with
  | nil => rfl
  | cons c schemas ih =>
    have self := List.mem_cons_self (a := c) (l := schemas)
    have plan : migrateTable tableNames db c = some [] := by
      unfold migrateTable
      by_cases embedded : c.embedded = true
      · rw [if_pos embedded]
      · rw [Bool.not_eq_true] at embedded
        rw [if_neg (by simp [embedded]), if_pos (known c self embedded),
          updateTable_nil (verified c self) (readsBack c self embedded)]
    have rest := ih (fun c mem => verified c (List.mem_cons_of_mem _ mem))
      (fun c mem => known c (List.mem_cons_of_mem _ mem))
      (fun c mem => readsBack c (List.mem_cons_of_mem _ mem))
    exact migrateTables_cons.mpr ⟨[], db, [], plan, rfl, rest, rfl⟩

theorem filter_notCollection_nil (only : ∀ t ∈ db, isCollection schemas t.name = true) :
    (db.tableNames.filter fun table => !isCollection schemas table) = [] := by
  apply List.filter_eq_nil_iff.mpr
  intro name mem
  obtain ⟨t, there, rfl⟩ := List.mem_map.mp mem
  simp [only t there]

theorem performMigration_again (verified : ∀ c ∈ schemas, c.Verified)
    (h : UpToDate db schemas) :
    performMigration (Catalog.exec refused) schemas db = some ([], db) := by
  have readsBack (c : IsarSchema) (mem : c ∈ schemas) (plain : c.embedded = false) :
      ReadsBack db c := by
    obtain ⟨t, there, name, shows, -⟩ := h.shown c mem plain
    exact (readsBack_iff h.valid).mpr ⟨t, there, name, shows⟩
  have loop := @migrateTables_nil refused _ _ _ verified
    (fun c mem plain => name_mem_of_readsBack (readsBack c mem plain)) readsBack
  refine performMigration_eq_some.mpr ⟨[], db, loop, ?_, ?_⟩
  · rw [filter_notCollection_nil h.only]
    rfl
  · rw [filter_notCollection_nil h.only]
    rfl

theorem migrateTables_append {schemas' : List IsarSchema} {rest : List SchemaStatement}
    {db₁ : Catalog}
    (first : migrateTables (Catalog.exec refused) tableNames db schemas = some (issued, db₁))
    (second : migrateTables (Catalog.exec refused) tableNames db₁ schemas' = some (rest, db')) :
    migrateTables (Catalog.exec refused) tableNames db (schemas ++ schemas') =
      some (issued ++ rest, db') := by
  induction schemas generalizing db issued with
  | nil =>
    cases first
    exact second
  | cons c schemas ih =>
    obtain ⟨statements, db₂, others, plan, run, tail, rfl⟩ := migrateTables_cons.mp first
    rw [List.cons_append, migrateTables_cons]
    exact ⟨statements, db₂, others ++ rest, plan, run, ih tail, by rw [List.append_assoc]⟩

/-! ## Removing an index -/

/-- All that is executed for a collection that has lost an index. -/
theorem updateTable_withoutIndex {c : IsarSchema} (verified : c.Verified) {i : IndexSchema}
    (mem : i ∈ c.indexes) (readsBack : ReadsBack db c) :
    updateTable db (c.withoutIndex i) = some [dropIndexSql c.name i.name] := by
  obtain ⟨old, read, properties, indexes⟩ := readsBack
  obtain ⟨addProperties, dropProperties⟩ :=
    @propertyChanges_nil (c.withoutIndex i) old verified.properties properties
  obtain ⟨addIndexes, dropIndexes⟩ :=
    indexChanges_withoutIndex verified.indexes mem dropProperties indexes
  have read' : readColSchema db (c.withoutIndex i).name = some old := read
  simp only [updateTable, read', addProperties, dropProperties, addIndexes, dropIndexes,
    Option.bind_eq_bind, Option.bind_some, List.mapM_nil, Option.pure_def, List.map_cons,
    List.map_nil, List.nil_append, List.append_nil]
  rfl

/-- The table of a collection without one of its indexes. -/
theorem shows_withoutIndex {c : IsarSchema} (verified : c.Verified) {i : IndexSchema}
    (mem : i ∈ c.indexes) {t : Table} (name : t.name = c.name) (shows : t.Shows c)
    (good : t.Named) :
    Table.Shows { t with indexes := t.indexes.filter fun j => j.name ∉ [indexName c.name i.name] }
      (c.withoutIndex i) := by
  refine ⟨shows.id, shows.properties, ?_⟩
  have eq := map_readIndex_filter good [i.name]
  rw [List.map_singleton, name] at eq
  show ((t.indexes.filter fun j => j.name ∉ [indexName c.name i.name]).map readIndex).Perm
    (c.indexes.erase i)
  rw [eq, verified.indexes.of_map.erase_eq_filter]
  refine (shows.indexes.filter _).trans (List.Perm.of_eq (List.filter_congr fun j mem' => ?_))
  -- an index of the collection that has the name is the one that goes
  have iff : j.name ∈ [i.name] ↔ j = i := by
    rw [List.mem_singleton]
    refine ⟨fun same => List.inj_on_of_nodup_map verified.indexes mem' mem same, ?_⟩
    intro same
    rw [same]
  simp [iff, bne, Bool.beq_eq_decide_eq]

theorem UpToDate.readsBack (h : UpToDate db schemas) {c : IsarSchema} (mem : c ∈ schemas)
    (collection : c.embedded = false) : ReadsBack db c := by
  obtain ⟨t, there, name, shows, -⟩ := h.shown c mem collection
  exact (readsBack_iff h.valid).mpr ⟨t, there, name, shows⟩

section
variable {pre post : List IsarSchema} {c : IsarSchema} {i : IndexSchema}

theorem collectionNames_append :
    collectionNames (pre ++ post) = collectionNames pre ++ collectionNames post := by
  simp [collectionNames]

theorem collectionNames_cons (collection : c.embedded = false) :
    collectionNames (c :: post) = c.name :: collectionNames post := by
  rw [collectionNames, List.filter_cons_of_pos (by simp [collection]), List.map_cons,
    collectionNames]

theorem isCollection_withoutIndex (table : String) :
    isCollection (pre ++ c.withoutIndex i :: post) table =
      isCollection (pre ++ c :: post) table := by
  simp [isCollection, withoutIndex]

/-- The other collections have other names. -/
theorem name_ne_of_mem (distinct : (collectionNames (pre ++ c :: post)).Nodup)
    (collection : c.embedded = false) {c' : IsarSchema} (mem : c' ∈ pre ∨ c' ∈ post)
    (collection' : c'.embedded = false) : c'.name ≠ c.name := by
  rw [collectionNames_append, collectionNames_cons collection, List.nodup_middle,
    List.nodup_cons, List.mem_append, not_or] at distinct
  intro same
  rcases mem with mem | mem
  · exact distinct.1.1 (same ▸ name_mem_collectionNames mem collection')
  · exact distinct.1.2 (same ▸ name_mem_collectionNames mem collection')

/-- The catalog that is left when the index is dropped. -/
theorem upToDate_dropIndexes (verified : ∀ c' ∈ pre ++ c :: post, c'.Verified)
    (distinct : (collectionNames (pre ++ c :: post)).Nodup) (collection : c.embedded = false)
    (mem : i ∈ c.indexes) (h : UpToDate db (pre ++ c :: post)) :
    UpToDate (db.dropIndexes [indexName c.name i.name]) (pre ++ c.withoutIndex i :: post) := by
  have self : c ∈ pre ++ c :: post := by simp
  obtain ⟨t, there, name, shows, good⟩ := h.shown c self collection
  have known : ∀ x ∈ [i.name], x ∈ (t.indexes.map readIndex).map IndexSchema.name := by
    intro x one
    rw [List.mem_singleton.mp one]
    exact List.mem_map_of_mem (shows.indexes.symm.subset mem)
  refine ⟨Catalog.valid_dropIndexes h.valid _, fun c' mem' collection' => ?_, fun t' mem' => ?_⟩
  · by_cases eq : c' = c.withoutIndex i
    · subst eq
      exact ⟨_, List.mem_map.mpr ⟨t, there, rfl⟩, name,
        shows_withoutIndex (verified c self) mem name shows good,
        fun j left => good j (List.mem_filter.mp left).1⟩
    · have other : c' ∈ pre ∨ c' ∈ post := by simpa [eq] using mem'
      have mem'' : c' ∈ pre ++ c :: post := by
        simpa using other.imp id Or.inr
      obtain ⟨t', there', name', shows', good'⟩ := h.shown c' mem'' collection'
      have ne : t'.name ≠ c.name :=
        fun same => name_ne_of_mem distinct collection other collection' (name'.symm.trans same)
      refine ⟨t', List.mem_map.mpr ⟨t', there', ?_⟩, name', shows', good'⟩
      have kept := dropIndexes_of_ne h.valid there name good known there' ne
      rw [List.map_singleton] at kept
      rw [kept]
  · obtain ⟨t₀, mem₀, rfl⟩ := List.mem_map.mp mem'
    rw [isCollection_withoutIndex]
    exact h.only t₀ mem₀

/-- Migrating to schemas without the index drops the index and does nothing else. -/
theorem performMigration_withoutIndex (verified : ∀ c' ∈ pre ++ c :: post, c'.Verified)
    (distinct : (collectionNames (pre ++ c :: post)).Nodup) (collection : c.embedded = false)
    (mem : i ∈ c.indexes) (h : UpToDate db (pre ++ c :: post))
    (accepted : refused db (dropIndexSql c.name i.name) = false) :
    performMigration (Catalog.exec refused) (pre ++ c.withoutIndex i :: post) db =
      some ([dropIndexSql c.name i.name], db.dropIndexes [indexName c.name i.name]) := by
  have self : c ∈ pre ++ c :: post := by simp
  have after := upToDate_dropIndexes verified distinct collection mem h
  have readsBack := h.readsBack self collection
  have known (c' : IsarSchema) (mem' : c' ∈ pre ++ c :: post) (plain : c'.embedded = false) :
      c'.name ∈ db.tableNames := name_mem_of_readsBack (h.readsBack mem' plain)
  have plan : migrateTable db.tableNames db (c.withoutIndex i) =
      some [dropIndexSql c.name i.name] := by
    have here : (c.withoutIndex i).name ∈ db.tableNames := known c self collection
    unfold migrateTable
    rw [if_neg (by simp [withoutIndex, collection]), if_pos here,
      updateTable_withoutIndex (verified c self) mem readsBack]
  have drop : db.exec refused (dropIndexSql c.name i.name) =
      some (db.dropIndexes [indexName c.name i.name]) := by
    obtain ⟨t, there, name, shows, good⟩ := h.shown c self collection
    obtain ⟨j, here, read⟩ := List.mem_map.mp (shows.indexes.symm.subset mem)
    have has : db.hasIndex (indexName c.name i.name) = true := by
      refine Catalog.hasIndex_iff.mpr ⟨t, there, j, here, ?_⟩
      rw [good j here, name, ← read]
      rfl
    exact Catalog.exec_dropIndex_eq has accepted
  have first : migrateTables (Catalog.exec refused) db.tableNames db pre = some ([], db) :=
    migrateTables_nil (fun c' mem' => verified c' (List.mem_append_left _ mem'))
      (fun c' mem' => known c' (List.mem_append_left _ mem'))
      (fun c' mem' => h.readsBack (List.mem_append_left _ mem'))
  have last : migrateTables (Catalog.exec refused) db.tableNames (db.dropIndexes [indexName c.name i.name]) post =
      some ([], db.dropIndexes [indexName c.name i.name]) :=
    migrateTables_nil (fun c' mem' => verified c' (by simp [mem']))
      (fun c' mem' => known c' (by simp [mem']))
      (fun c' mem' => after.readsBack (by simp [mem']))
  have loop := migrateTables_append first (migrateTables_cons.mpr
    ⟨_, _, _, plan, Catalog.run_cons.mpr ⟨_, drop, rfl⟩, last, rfl⟩)
  have only (t : Table) (there : t ∈ db) :
      isCollection (pre ++ c.withoutIndex i :: post) t.name = true := by
    rw [isCollection_withoutIndex]
    exact h.only t there
  refine performMigration_eq_some.mpr ⟨_, _, loop, ?_, ?_⟩
  · rw [filter_notCollection_nil only]
    rfl
  · rw [filter_notCollection_nil only]
    rfl

end

end

end IsarPlus.Sqlite
