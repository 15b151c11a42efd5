import IsarPlus.Sqlite.Proofs.PlainNames

/-!
# The schema that is read back

What `perform_migration` leaves is read back as it was asked for, and is left alone when it is opened
again, exactly if no index is hashed, no name of an index has an underscore, and the same can be said
of the indexes that are there already. All names are plain, so that the texts of the statements mean
what they should.
-/

namespace IsarPlus.Sqlite
open IsarSchema

/-- The collections are read back, nothing is executed when they are opened again, and a collection
that loses an index makes the migration drop this index and do nothing else. -/
structure Migrated (schemas : List IsarSchema) (db : Catalog) : Prop where
  readsBack : ∀ c ∈ schemas, c.embedded = false → ReadsBack db c
  again : ∀ refused misread,
    performMigration (Catalog.execText refused misread) schemas db = some ([], db)
  removal : ∀ refused misread pre c post i, schemas = pre ++ c :: post → c.embedded = false →
    i ∈ c.indexes → refused db (dropIndexSql c.name i.name) = false →
    ∃ db', performMigration (Catalog.execText refused misread)
          (pre ++ c.withoutIndex i :: post) db = some ([dropIndexSql c.name i.name], db') ∧
      ∀ c' ∈ pre ++ c.withoutIndex i :: post, c'.embedded = false → ReadsBack db' c'

section
variable {refused : Catalog → SchemaStatement → Bool} {db db' : Catalog} {tableNames : List String}
  {schemas : List IsarSchema} {issued : List SchemaStatement}

/-- What is enough for it. -/
theorem migrated_of_upToDate (verified : ∀ c ∈ schemas, c.Verified)
    (distinct : (collectionNames schemas).Nodup) (names : PlainNames schemas db)
    (h : UpToDate db schemas) : Migrated schemas db where
  readsBack c mem collection := h.readsBack mem collection
  again refused misread := by
    rw [(performMigration_execText names).1]
    exact performMigration_again verified h
  removal refused misread pre c post i eq collection mem accepted := by
    subst eq
    rw [(performMigration_execText (names.withoutIndex i)).1]
    exact ⟨_, performMigration_withoutIndex verified distinct collection mem h accepted,
      fun c' mem' => (upToDate_dropIndexes verified distinct collection mem h).readsBack mem'⟩

/-! ## Indexes that cannot be told from their names -/

/-- The catalog behind a migration is the one that its statements lead to. -/
theorem run_of_migrateTables
    (run : migrateTables (Catalog.exec refused) tableNames db schemas = some (issued, db')) :
    db.run (Catalog.exec refused) issued = some db' := by
  induction schemas generalizing db issued with
  | nil =>
    cases run
    rfl
  | cons c schemas ih =>
    obtain ⟨statements, db₁, rest, -, first, others, rfl⟩ := migrateTables_cons.mp run
    exact Catalog.run_append.mpr ⟨db₁, first, ih others⟩

theorem run_of_performMigration
    (run : performMigration (Catalog.exec refused) schemas db = some (issued, db')) :
    db.run (Catalog.exec refused) issued = some db' := by
  obtain ⟨statements, db₁, loop, drops, rfl⟩ := performMigration_eq_some.mp run
  exact Catalog.run_append.mpr ⟨db₁, run_of_migrateTables loop, drops⟩

/-- Only plain indexes are read. -/
theorem plain_of_readsBack {c : IsarSchema} (valid : db.Valid) (readsBack : ReadsBack db c) :
    PlainIndexes c := by
  obtain ⟨t, -, -, shows⟩ := (readsBack_iff valid).mp readsBack
  intro i mem
  obtain ⟨o, -, rfl⟩ := List.mem_map.mp (shows.indexes.symm.subset mem)
  exact ⟨rfl, underscore_notMem_lastPiece o.name⟩

/-- Indexes that can be removed with their schemas have the names they should have. -/
theorem Migrated.named (valid : db.Valid) (verified : ∀ c ∈ schemas, c.Verified)
    (names : PlainNames schemas db) (h : Migrated schemas db) {c : IsarSchema} (mem : c ∈ schemas)
    (collection : c.embedded = false)
    {t : Table} (there : t ∈ db) (name : t.name = c.name) : t.Named := by
  intro o here
  obtain ⟨t', there', name', shows⟩ := (readsBack_iff valid).mp (h.readsBack c mem collection)
  obtain rfl := List.inj_on_of_nodup_map valid.tables there' there (name'.trans name.symm)
  have read : readIndex o ∈ c.indexes := shows.indexes.subset (List.mem_map_of_mem here)
  obtain ⟨pre, post, eq⟩ := List.append_of_mem mem
  obtain ⟨db', run, readsBack⟩ :=
    h.removal (fun _ _ => false) (fun _ _ => none) pre c post (readIndex o) eq collection read rfl
  rw [(performMigration_execText ((eq ▸ names).withoutIndex _)).1] at run
  -- the statement drops an index of this name, which the table does not have afterwards
  obtain ⟨db₁, drop, done⟩ := Catalog.run_cons.mp (run_of_performMigration run)
  cases done
  obtain ⟨-, rfl⟩ := Catalog.exec_dropIndex drop
  have valid' := Catalog.valid_dropIndexes valid [indexName c.name (readIndex o).name]
  obtain ⟨t', there₁, name₁, shows'⟩ :=
    (readsBack_iff valid').mp (readsBack (c.withoutIndex (readIndex o)) (by simp) collection)
  obtain ⟨t₁, mem₁, rfl⟩ := List.mem_map.mp there₁
  obtain rfl := List.inj_on_of_nodup_map valid.tables mem₁ there (name₁.trans name.symm)
  have fewer : (t₁.indexes.filter fun j =>
      j.name ∉ [indexName c.name (readIndex o).name]).length < t₁.indexes.length := by
    have before := shows.indexes.length_eq
    have after := shows'.indexes.length_eq
    have less : (c.indexes.erase (readIndex o)).length < c.indexes.length := by
      rw [List.length_erase_of_mem read]
      have := List.length_pos_of_mem read
      omega
    rw [List.length_map] at before after
    rw [before]
    exact lt_of_eq_of_lt after less
  obtain ⟨j, here', gone⟩ := List.length_filter_lt_length_iff_exists.mp fewer
  have full : j.name = indexName c.name (lastPiece o.name) := by simpa [readIndex] using gone
  have piece : lastPiece j.name = lastPiece o.name := by
    rw [full, lastPiece_indexName (underscore_notMem_lastPiece o.name)]
  have names : (t₁.indexes.map fun j => lastPiece j.name).Nodup := by
    have names := (shows.indexes.map IndexSchema.name).nodup_iff.mpr (verified c mem).indexes
    rwa [List.map_map] at names
  obtain rfl := List.inj_on_of_nodup_map names here' here piece
  rw [name]
  exact full

/-- Some table of the given names has an index that does not have the name it should have. -/
def Misnamed (names : List String) (db : Catalog) : Prop :=
  ∃ t ∈ db, t.name ∈ names ∧ ¬ t.Named

theorem misnamed_iff {names : List String} :
    Misnamed names db ↔ ∃ t ∈ db, t.name ∈ names ∧
      ∃ o ∈ t.indexes, o.name ≠ indexName t.name (lastPiece o.name) := by
  simp [Misnamed, Table.Named]

/-- A name that is given to an index of the table. -/
theorem piece_of_eq {o : SqlIndex} {table piece : String} (plain : '_' ∉ piece.toList)
    (eq : o.name = indexName table piece) : o.name = indexName table (lastPiece o.name) := by
  have same : lastPiece o.name = piece := by rw [eq, lastPiece_indexName plain]
  rw [same]
  exact eq

/-- An update leaves a misnamed index: one that it drops is dropped for another misnamed one, which
stays. -/
theorem misnamed_of_updateTable {names : List String} {c : IsarSchema}
    {statements : List SchemaStatement} (valid : db.Valid) (known : c.name ∈ names)
    (misnamed : Misnamed names db) (plan : updateTable db c = some statements)
    (run : db.run (Catalog.exec refused) statements = some db') : db'.Valid ∧ Misnamed names db' := by
  obtain ⟨old, columns, read, -, valid', rfl⟩ := run_updateTable valid plan run
  obtain ⟨d, memD, nameD, -, rfl⟩ := (readColSchema_eq_some valid).mp read
  refine ⟨valid', ?_⟩
  generalize changes : c.findChanges _ = found at valid' ⊢
  have pieces (x : String) (drop : x ∈ found.dropIndexes) :
      ∃ o ∈ d.indexes, lastPiece o.name = x := by
    rw [← changes] at drop
    obtain ⟨i, mem, rfl⟩ := List.mem_map.mp (IsarSchema.dropIndexes_sub_names c _ drop)
    obtain ⟨o, here, rfl⟩ := List.mem_map.mp mem
    exact ⟨o, here, rfl⟩
  have plain {x : String} (drop : x ∈ found.dropIndexes) : '_' ∉ x.toList := by
    obtain ⟨o, -, rfl⟩ := pieces x drop
    exact underscore_notMem_lastPiece o.name
  -- what is not dropped stays where it is
  have stays {t : Table} (mem : t ∈ db) (name : t.name ∈ names) {o : SqlIndex}
      (here : o ∈ t.indexes) (bad : o.name ≠ indexName t.name (lastPiece o.name))
      (left : o.name ∉ found.dropIndexes.map (indexName c.name)) :
      Misnamed names ((db.dropIndexes (found.dropIndexes.map (indexName c.name))).modify c.name
        (Table.updated c.name found columns)) := by
    have mem' : { t with indexes := t.indexes.filter fun i =>
        i.name ∉ found.dropIndexes.map (indexName c.name) } ∈
        db.dropIndexes (found.dropIndexes.map (indexName c.name)) := List.mem_map.mpr ⟨t, mem, rfl⟩
    have here' : o ∈ t.indexes.filter fun i =>
        i.name ∉ found.dropIndexes.map (indexName c.name) :=
      List.mem_filter.mpr ⟨here, decide_eq_true left⟩
    by_cases own : t.name = c.name
    · exact misnamed_iff.mpr ⟨_, Catalog.mem_modify mem' own, name, o,
        List.mem_append_right _ here', bad⟩
    · exact misnamed_iff.mpr ⟨_, Catalog.mem_modify_of_ne mem' own, name, o, here', bad⟩
  obtain ⟨t, mem, name, o, here, bad⟩ := misnamed_iff.mp misnamed
  by_cases left : o.name ∉ found.dropIndexes.map (indexName c.name)
  · exact stays mem name here bad left
  · obtain ⟨x, drop, same⟩ := List.mem_map.mp (not_not.mp left)
    obtain ⟨o', here', piece⟩ := pieces x drop
    have other : t.name ≠ c.name := by
      intro own
      apply bad
      rw [own]
      exact piece_of_eq (plain drop) same.symm
    have bad' : o'.name ≠ indexName d.name (lastPiece o'.name) := by
      intro good
      rw [piece, nameD, same] at good
      exact other ((valid.owner t mem d memD o here o' here' good.symm).trans nameD)
    refine stays memD (nameD ▸ known) here' bad' fun gone => ?_
    obtain ⟨y, drop', same'⟩ := List.mem_map.mp gone
    apply bad'
    rw [nameD]
    exact piece_of_eq (plain drop') same'.symm

theorem misnamed_of_create {names : List String} {c : IsarSchema} {create : SchemaStatement}
    (valid : db.Valid) (misnamed : Misnamed names db) (plan : createTableSql c = some create)
    (run : db.run (Catalog.exec refused) (create :: c.indexes.map (createIndexSql c.name)) =
      some db') :
    db'.Valid ∧ Misnamed names db' := by
  obtain ⟨columns, -, fresh, valid', rfl⟩ := run_createTable valid plan run
  refine ⟨valid', ?_⟩
  obtain ⟨t, mem, name, bad⟩ := misnamed
  have ne : t.name ≠ c.name := fun same => fresh (same ▸ List.mem_map_of_mem mem)
  exact ⟨t, Catalog.mem_modify_of_ne (List.mem_append_left _ mem) ne, name, bad⟩

/-- By induction on the collections. -/
theorem misnamed_of_migrateTables {names : List String} (valid : db.Valid)
    (known : ∀ c ∈ schemas, c.embedded = false → c.name ∈ names) (misnamed : Misnamed names db)
    (run : migrateTables (Catalog.exec refused) tableNames db schemas = some (issued, db')) :
    Misnamed names db' := by
  induction schemas generalizing db issued with
  | nil =>
    cases run
    exact misnamed
  | cons c schemas ih =>
    obtain ⟨statements, db₁, rest, plan, first, others, -⟩ := migrateTables_cons.mp run
    have step : db₁.Valid ∧ Misnamed names db₁ := by
      unfold migrateTable at plan
      by_cases embedded : c.embedded = true
      · rw [if_pos embedded] at plan
        cases plan
        cases first
        exact ⟨valid, misnamed⟩
      · rw [if_neg embedded] at plan
        by_cases there : c.name ∈ tableNames
        · rw [if_pos there] at plan
          exact misnamed_of_updateTable valid
            (known c List.mem_cons_self (Bool.not_eq_true _ ▸ embedded)) misnamed plan first
        · rw [if_neg there] at plan
          simp only [Option.bind_eq_bind, Option.bind_eq_some_iff, Option.pure_def,
            Option.some.injEq] at plan
          obtain ⟨create, plan, rfl⟩ := plan
          exact misnamed_of_create valid misnamed plan first
    exact ih step.1 (fun c' mem => known c' (List.mem_cons_of_mem _ mem)) step.2 others

/-- Dropping the tables of other collections leaves a misnamed index. -/
theorem misnamed_of_performMigration (valid : db.Valid)
    (misnamed : Misnamed (collectionNames schemas) db)
    (run : performMigration (Catalog.exec refused) schemas db = some (issued, db')) :
    Misnamed (collectionNames schemas) db' := by
  obtain ⟨statements, db₁, loop, drops, -⟩ := performMigration_eq_some.mp run
  obtain ⟨t, there, name, bad⟩ := misnamed_of_migrateTables valid
    (fun c mem collection => name_mem_collectionNames mem collection) misnamed loop
  exact ⟨t, (mem_of_drops drops t).mpr ⟨there, fun _ => isCollection_iff.mpr name⟩, name, bad⟩

end

/-! ## The migrations that can be repeated -/

/-- Where the names are plain, a successful migration has done what it should exactly if no index is
hashed or has an underscore and those that were there already had the names they should have. -/
theorem migrated_iff (refused : Catalog → SchemaStatement → Bool)
    (misread : Catalog → SchemaStatement → Option Catalog) {schemas : List IsarSchema}
    {db db' : Catalog} {issued : List SchemaStatement} (valid : db.Valid)
    (verified : verifySchemas schemas = .ok ()) (distinct : (collectionNames schemas).Nodup)
    (decodes : ∀ c ∈ schemas, Decodes c) (names : PlainNames schemas db)
    (run : performMigration (Catalog.execText refused misread) schemas db = some (issued, db')) :
    Migrated schemas db' ↔ ∀ c ∈ schemas, c.embedded = false →
      PlainIndexes c ∧ ∀ t ∈ db, t.name = c.name → t.Named := by
  have verified := verified_of_verifySchemas verified
  rw [(performMigration_execText names).1] at run
  have names' : PlainNames schemas db' :=
    ⟨names.schemas, (@performMigration_execText refused misread _ _ names).2 issued db' run⟩
  refine ⟨fun h => ?_, fun h => ?_⟩
  · have valid' : db'.Valid := Catalog.valid_run valid (run_of_performMigration run)
    have good : ¬ Misnamed (collectionNames schemas) db' := by
      rintro ⟨t, there, name, bad⟩
      obtain ⟨c, mem, name⟩ := List.mem_map.mp name
      obtain ⟨mem, collection⟩ := List.mem_filter.mp mem
      exact bad (h.named valid' verified names' mem (by simpa using collection) there name.symm)
    intro c mem collection
    refine ⟨plain_of_readsBack valid' (h.readsBack c mem collection), fun t there name => ?_⟩
    by_contra bad
    have misnamed : Misnamed (collectionNames schemas) db :=
      ⟨t, there, name ▸ name_mem_collectionNames mem collection, bad⟩
    exact good (misnamed_of_performMigration valid misnamed run)
  · have migratable : Migratable db schemas :=
      { verified := verified
        decodes := decodes
        plain := fun c mem collection => (h c mem collection).1
        named := fun c mem collection => (h c mem collection).2
        distinct := distinct }
    exact migrated_of_upToDate verified distinct names'
      (upToDate_of_performMigration valid migratable run)

/-- A collection of cities with an index. -/
def citySchema : IsarSchema where
  name := "City"
  idName := some "id"
  embedded := false
  properties := [⟨some "name", .string, none⟩, ⟨some "population", .long, none⟩]
  indexes := [{ name := "name", properties := ["name"], unique := true, hash := false }]
  version := 0

def cityTable : Table where
  name := "City"
  columns := [("_rowid_", "INTEGER"), ("name", "TEXT"), ("population", "i64")]
  indexes := [{ name := "City_name", unique := true, columns := ["name"] }]

/-- The table of the cities before they had a population and an index. -/
def oldCityTable : Table where
  name := "City"
  columns := [("_rowid_", "INTEGER"), ("name", "TEXT")]
  indexes := []

/-- SQLite where nothing fails but texts that cannot be read. -/
def reading : Catalog → SchemaStatement → Option Catalog :=
  Catalog.execText (fun _ _ => false) fun _ _ => none

theorem plainNames_city : PlainNames [citySchema] [oldCityTable] := by
  refine ⟨List.forall_mem_singleton.mpr fun _ => ?_, ?_⟩
  · exact ⟨by decide +kernel, by decide +kernel, by decide +kernel, by decide +kernel,
      by decide +kernel⟩
  · exact ⟨by decide +kernel, by decide +kernel, by decide +kernel⟩

theorem migrated_iff_on_city :
    Migrated [citySchema] [cityTable] ↔ ∀ c ∈ [citySchema], c.embedded = false →
      PlainIndexes c ∧ ∀ t ∈ [oldCityTable], t.name = c.name → t.Named :=
  @migrated_iff (fun _ _ => false) (fun _ _ => none) [citySchema] [oldCityTable] [cityTable]
    [.addColumn "City" ("population", "i64"),
      .createIndex "City" { name := "City_name", unique := true, columns := ["name"] }]
    ⟨by decide, by decide, by decide, by decide⟩ rfl (by decide)
    (by simp [Decodes, citySchema]) plainNames_city (by decide +kernel)

/-- An index on several properties has a name with underscores by default. -/
def userSchema : IsarSchema where
  name := "User"
  idName := some "id"
  embedded := false
  properties := [⟨some "age", .long, none⟩, ⟨some "email", .string, none⟩]
  indexes := [{ name := "age_email", properties := ["age", "email"], unique := false, hash := false }]
  version := 0

/-- A hashed index. -/
def tokenSchema : IsarSchema where
  name := "Token"
  idName := some "id"
  embedded := false
  properties := [⟨some "key", .string, none⟩]
  indexes := [{ name := "key", properties := ["key"], unique := false, hash := true }]
  version := 0

/-- The tables that the first opening creates. -/
def userTable : Table where
  name := "User"
  columns := [("_rowid_", "INTEGER"), ("age", "i64"), ("email", "TEXT")]
  indexes := [{ name := "User_age_email", unique := false, columns := ["age", "email"] }]

def tokenTable : Table where
  name := "Token"
  columns := [("_rowid_", "INTEGER"), ("key", "TEXT")]
  indexes := [{ name := "Token_key", unique := false, columns := ["key"] }]

/-- The second opening fails on the first collection, and creates the index of the second one anew. -/
theorem opened_again :
    (verifySchemas [userSchema] = .ok () ∧
      (performMigration reading [userSchema] []).map Prod.snd = some [userTable] ∧
      performMigration reading [userSchema] [userTable] = none ∧
      ¬ Migrated [userSchema] [userTable]) ∧
    (verifySchemas [tokenSchema] = .ok () ∧
      (performMigration reading [tokenSchema] []).map Prod.snd = some [tokenTable] ∧
      performMigration reading [tokenSchema] [tokenTable] = some
        ([.dropIndex "Token_key",
          .createIndex "Token" { name := "Token_key", unique := false, columns := ["key"] }],
          [tokenTable]) ∧
      ¬ Migrated [tokenSchema] [tokenTable]) := by
  have user : performMigration reading [userSchema] [userTable] = none := by decide +kernel
  have token : performMigration reading [tokenSchema] [tokenTable] = some
      ([.dropIndex "Token_key",
        .createIndex "Token" { name := "Token_key", unique := false, columns := ["key"] }],
        [tokenTable]) := by decide +kernel
  refine ⟨⟨rfl, by decide +kernel, user, fun h => ?_⟩,
    ⟨rfl, by decide +kernel, token, fun h => ?_⟩⟩
  · cases user.symm.trans (h.again (fun _ _ => false) fun _ _ => none)
  · cases token.symm.trans (h.again (fun _ _ => false) fun _ _ => none)

end IsarPlus.Sqlite
