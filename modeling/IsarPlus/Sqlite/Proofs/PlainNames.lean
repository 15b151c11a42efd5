import IsarPlus.Sqlite.Proofs.MigrationRuns

/-!
# Plain names

Where the names of the schemas and of the catalog are plain, SQLite reads every statement of a
migration as it is meant, and the catalog that it leaves has plain names again.
-/

namespace IsarPlus

/-! ## Changes -/

namespace IsarSchema

/-- Only properties of the new schema are added. -/
theorem addProperties_sub (schema old : IsarSchema) :
    ∀ p ∈ (schema.findChanges old).addProperties, p ∈ schema.properties := by
  intro p mem
  rcases List.mem_append.mp mem with changed | fresh
  · obtain ⟨⟨name, q⟩, mem, rfl⟩ := List.mem_filterMap.mp changed
    obtain ⟨o, -, eq⟩ := List.mem_filterMap.mp mem
    unfold changedProperty at eq
    split at eq
    · cases eq
    · split at eq
      · rename_i found
        split at eq
        · cases eq
          exact List.mem_of_find?_eq_some found
        · cases eq
      · cases eq
  · exact (List.mem_filter.mp fresh).1

/-- Only indexes of the new schema are added. -/
theorem addIndexes_sub (schema old : IsarSchema) :
    ∀ i ∈ (schema.findChanges old).addIndexes, i ∈ schema.indexes := by
  intro i mem
  rcases List.mem_append.mp mem with changed | fresh
  · obtain ⟨⟨name, j⟩, mem, rfl⟩ := List.mem_filterMap.mp changed
    obtain ⟨o, -, eq⟩ := List.mem_filterMap.mp mem
    unfold changedIndex at eq
    split at eq
    · rename_i found
      split at eq
      · cases eq
        exact List.mem_of_find?_eq_some found
      · cases eq
    · cases eq
  · exact (List.mem_filter.mp fresh).1

/-! ## Schemas -/

/-- The names of a collection that stand in SQL texts are plain. An index has the table's name in
front of its own. -/
structure PlainNames (c : IsarSchema) : Prop where
  name : Sql.Plain c.name
  properties : ∀ p ∈ c.properties, ∀ name ∈ p.name, Sql.Plain name
  targets : ∀ p ∈ c.properties, ∀ target ∈ p.collection, Sql.Plain target
  indexes : ∀ i ∈ c.indexes, i.name.toList.all Sql.isWordChar = true
  indexed : ∀ i ∈ c.indexes, ∀ name ∈ i.properties, Sql.Plain name

theorem PlainNames.withoutIndex {c : IsarSchema} (plain : c.PlainNames) (i : IndexSchema) :
    (c.withoutIndex i).PlainNames where
  name := plain.name
  properties := plain.properties
  targets := plain.targets
  indexes j mem := plain.indexes j (List.mem_of_mem_erase mem)
  indexed j mem := plain.indexed j (List.mem_of_mem_erase mem)

end IsarSchema

namespace Sqlite
open Sql (Plain PlainType isWord isWordChar)

/-- The names in a catalog are plain. -/
structure Catalog.PlainNames (db : Catalog) : Prop where
  tables : ∀ t ∈ db, Plain t.name
  columns : ∀ t ∈ db, ∀ c ∈ t.columns, Plain c.1
  indexes : ∀ t ∈ db, ∀ i ∈ t.indexes, i.name.toList.all isWordChar = true

/-- The names of all schemas that have tables are plain, and those in the catalog are. -/
structure PlainNames (schemas : List IsarSchema) (db : Catalog) : Prop where
  schemas : ∀ c ∈ schemas, c.embedded = false → c.PlainNames
  catalog : db.PlainNames

theorem PlainNames.withoutIndex {pre post : List IsarSchema} {c : IsarSchema} {db : Catalog}
    (names : PlainNames (pre ++ c :: post) db) (i : IndexSchema) :
    PlainNames (pre ++ c.withoutIndex i :: post) db := by
  refine ⟨fun c' mem => ?_, names.catalog⟩
  rcases List.mem_append.mp mem with before | rest
  · exact names.schemas c' (List.mem_append_left _ before)
  · rcases List.mem_cons.mp rest with rfl | behind
    · exact fun collection =>
        (names.schemas c (List.mem_append_right _ List.mem_cons_self) collection).withoutIndex i
    · exact names.schemas c' (List.mem_append_right _ (List.mem_cons_of_mem _ behind))

/-! ## Statements -/

/-- A type behind a plain name is plain; no keyword ends like it. -/
theorem plainType_of_target {target : String} (plain : Plain target) :
    PlainType (target ++ "_TEXT") := by
  refine Or.inl ⟨?_, ?_⟩
  · rw [String.toList_append]
    exact Sql.isWord_append plain.1 (by decide)
  · have others : ∀ word ∈ Sql.reserved.map String.toList, ¬ "_text".toList <:+ word := by
      decide +kernel
    intro mem
    apply others _ mem
    rw [String.toList_append, Sql.noCase, List.map_append]
    exact List.suffix_append _ _

theorem plainType_of_dataTypeSql {p : PropertySchema} {sqlType : String}
    (targets : ∀ target ∈ p.collection, Plain target) (eq : dataTypeSql p = some sqlType) :
    PlainType sqlType := by
  unfold dataTypeSql at eq
  cases type : p.dataType with
  | object =>
    simp only [type] at eq
    obtain ⟨target, there, rfl⟩ := Option.map_eq_some_iff.mp eq
    exact plainType_of_target (targets target there)
  | objectList =>
    simp only [type] at eq
    obtain ⟨target, there, rfl⟩ := Option.map_eq_some_iff.mp eq
    exact Sql.plainType_of_list (targets target there)
  | _ =>
    simp only [type, Option.some.injEq] at eq
    subst eq
    decide +kernel

/-- The columns of properties. -/
theorem plain_of_mapM {properties : List PropertySchema} {columns : List (String × String)}
    (names : ∀ p ∈ properties, ∀ name ∈ p.name, Plain name)
    (targets : ∀ p ∈ properties, ∀ target ∈ p.collection, Plain target)
    (all : properties.mapM column = some columns) : ∀ c ∈ columns, Plain c.1 ∧ PlainType c.2 := by
  intro c mem
  obtain ⟨p, there, eq⟩ := mem_of_mapM all c mem
  unfold column at eq
  simp only [Option.bind_eq_bind, Option.bind_eq_some_iff, Option.pure_def,
    Option.some.injEq] at eq
  obtain ⟨name, named, sqlType, type, rfl⟩ := eq
  exact ⟨names p there name named, plainType_of_dataTypeSql (targets p there) type⟩

theorem isWord_indexName {table index : String} (plain : Plain table)
    (chars : index.toList.all isWordChar = true) : isWord (indexName table index).toList = true := by
  have whole : (indexName table index).toList = table.toList ++ '_' :: index.toList := by
    simp [indexName, String.toList_append]
  rw [whole]
  exact Sql.isWord_append plain.1 chars

theorem all_lastPiece {name : String} (chars : name.toList.all isWordChar = true) :
    (lastPiece name).toList.all isWordChar = true := by
  rw [lastPiece, String.toList_ofList]
  apply List.all_eq_true.mpr
  intro c mem
  have mem := (List.takeWhile_sublist _).mem (List.mem_reverse.mp mem)
  exact List.all_eq_true.mp chars c (List.mem_reverse.mp mem)

section
variable {refused : Catalog → SchemaStatement → Bool}
  {misread : Catalog → SchemaStatement → Option Catalog} {db db' : Catalog}
  {tableNames : List String} {schemas : List IsarSchema} {c : IsarSchema}
  {statements issued : List SchemaStatement}

theorem plain_createIndexes (plain : c.PlainNames) :
    ∀ i ∈ c.indexes, (createIndexSql c.name i).Plain := fun i mem =>
  ⟨plain.name, isWord_indexName plain.name (plain.indexes i mem), plain.indexed i mem⟩

theorem plain_of_updateTable (names : db.PlainNames) (plain : c.PlainNames)
    (plan : updateTable db c = some statements) : ∀ s ∈ statements, s.Plain := by
  unfold updateTable at plan
  simp only [Option.bind_eq_bind, Option.bind_eq_some_iff, Option.pure_def,
    Option.some.injEq] at plan
  obtain ⟨existing, read, columns, all, rfl⟩ := plan
  -- what is read of the catalog is plain too
  obtain ⟨properties, indexes⟩ : (∀ p ∈ existing.properties, ∀ name ∈ p.name, Plain name) ∧
      ∀ i ∈ existing.indexes, i.name.toList.all isWordChar = true := by
    unfold readColSchema at read
    obtain ⟨-, eq⟩ := Option.ite_none_right_eq_some.mp read
    rw [← Option.some.inj eq]
    cases found : db.table c.name with
    | none => simp
    | some t =>
      have there := List.mem_of_find?_eq_some found
      refine ⟨fun p mem name named => ?_, fun i mem => ?_⟩
      · obtain ⟨col, inside, rfl⟩ := List.mem_map.mp (List.mem_of_mem_eraseP mem)
        cases named
        exact names.columns t there col inside
      · obtain ⟨i, inside, rfl⟩ := List.mem_map.mp mem
        exact all_lastPiece (names.indexes t there i inside)
  intro s mem
  simp only [List.mem_append, List.mem_map] at mem
  rcases mem with ⟨name, dropped, rfl⟩ | ⟨name, dropped, rfl⟩ | ⟨col, added, rfl⟩ | ⟨i, added, rfl⟩
  · obtain ⟨i, mem, rfl⟩ := List.mem_map.mp (IsarSchema.dropIndexes_sub_names c existing dropped)
    exact isWord_indexName plain.name (indexes i mem)
  · obtain ⟨p, mem, named⟩ := List.mem_map.mp (dropProperties_sub c existing name dropped)
    exact ⟨plain.name, properties p (List.mem_filter.mp mem).1 name named⟩
  · have sub := IsarSchema.addProperties_sub c existing
    exact ⟨plain.name, plain_of_mapM (fun p mem => plain.properties p (sub p mem))
      (fun p mem => plain.targets p (sub p mem)) all col added⟩
  · exact plain_createIndexes plain i (IsarSchema.addIndexes_sub c existing i added)

/-- The statements for one collection. -/
theorem plain_of_migrateTable (names : db.PlainNames) (plain : c.embedded = false → c.PlainNames)
    (plan : migrateTable tableNames db c = some statements) : ∀ s ∈ statements, s.Plain := by
  unfold migrateTable at plan
  by_cases embedded : c.embedded = true
  · rw [if_pos embedded] at plan
    cases plan
    exact List.forall_mem_nil _
  rw [if_neg embedded] at plan
  have plain := plain (Bool.not_eq_true _ ▸ embedded)
  by_cases known : c.name ∈ tableNames
  · rw [if_pos known] at plan
    exact plain_of_updateTable names plain plan
  · rw [if_neg known] at plan
    unfold createTableSql at plan
    simp only [Option.bind_eq_bind, Option.bind_eq_some_iff, Option.pure_def,
      Option.some.injEq] at plan
    obtain ⟨create, ⟨columns, all, rfl⟩, rfl⟩ := plan
    have own := plain_of_mapM (fun p mem => plain.properties p (List.mem_filter.mp mem).1)
      (fun p mem => plain.targets p (List.mem_filter.mp mem).1) all
    refine List.forall_mem_cons.mpr ⟨⟨plain.name, List.forall_mem_cons.mpr ⟨?_, own⟩⟩, fun s mem => ?_⟩
    · decide +kernel
    · obtain ⟨i, inside, rfl⟩ := List.mem_map.mp mem
      exact plain_createIndexes plain i inside

/-! ## Catalogs -/

theorem plainNames_modify (names : db.PlainNames) {table : String} {f : Table → Table}
    (name : ∀ t ∈ db, (f t).name = t.name) (columns : ∀ t ∈ db, ∀ c ∈ (f t).columns, Plain c.1)
    (indexes : ∀ t ∈ db, ∀ i ∈ (f t).indexes, i.name.toList.all isWordChar = true) :
    (db.modify table f).PlainNames := by
  refine ⟨fun t mem => ?_, fun t mem => ?_, fun t mem => ?_⟩ <;>
    rcases Catalog.of_mem_modify mem with ⟨old, -⟩ | ⟨t, old, -, rfl⟩
  · exact names.tables t old
  · rw [name t old]
    exact names.tables t old
  · exact names.columns t old
  · exact columns t old
  · exact names.indexes t old
  · exact indexes t old

theorem plainNames_sub (names : db.PlainNames) (sub : ∀ t ∈ db', t ∈ db) : db'.PlainNames :=
  ⟨fun t mem => names.tables t (sub t mem), fun t mem => names.columns t (sub t mem),
    fun t mem => names.indexes t (sub t mem)⟩

/-- A plain statement keeps the names plain. -/
theorem plainNames_exec (names : db.PlainNames) {s : SchemaStatement} (plain : s.Plain)
    (h : db.exec refused s = some db') : db'.PlainNames := by
  cases s with
  | createTable table columns =>
    obtain ⟨-, -, rfl⟩ := Catalog.exec_createTable h
    refine ⟨fun t mem => ?_, fun t mem => ?_, fun t mem => ?_⟩ <;>
      rcases List.mem_append.mp mem with mem | mem
    · exact names.tables t mem
    · exact List.mem_singleton.mp mem ▸ plain.1
    · exact names.columns t mem
    · exact List.mem_singleton.mp mem ▸ fun c there => (plain.2 c there).1
    · exact names.indexes t mem
    · exact List.mem_singleton.mp mem ▸ List.forall_mem_nil _
  | createIndex table index =>
    obtain ⟨-, rfl⟩ := Catalog.exec_createIndex h
    exact plainNames_modify names (fun _ _ => rfl) names.columns fun t mem =>
      List.forall_mem_cons.mpr ⟨Sql.isWordChar_of_isWord plain.2.1, names.indexes t mem⟩
  | dropIndex name =>
    obtain ⟨-, rfl⟩ := Catalog.exec_dropIndex h
    refine ⟨fun t mem => ?_, fun t mem => ?_, fun t mem => ?_⟩ <;>
      obtain ⟨t, old, rfl⟩ := List.mem_map.mp mem
    · exact names.tables t old
    · exact names.columns t old
    · exact fun i there => names.indexes t old i (List.mem_filter.mp there).1
  | addColumn table column =>
    obtain ⟨-, rfl⟩ := Catalog.exec_addColumn h
    exact plainNames_modify names (fun _ _ => rfl) (fun t mem => List.forall_mem_append.mpr
      ⟨names.columns t mem, List.forall_mem_singleton.mpr plain.2.1⟩) names.indexes
  | dropColumn table column =>
    rw [Catalog.exec_dropColumn h]
    exact plainNames_modify names (fun _ _ => rfl)
      (fun t mem c there => names.columns t mem c (List.mem_filter.mp there).1) names.indexes
  | dropTable table =>
    rw [Catalog.exec_dropTable h]
    exact plainNames_sub names fun t mem => (List.mem_filter.mp mem).1

theorem plainNames_run (names : db.PlainNames) (plain : ∀ s ∈ statements, s.Plain)
    (h : db.run (Catalog.exec refused) statements = some db') : db'.PlainNames := by
  induction statements generalizing db with
  | nil =>
    cases h
    exact names
  | cons s statements ih =>
    obtain ⟨db₁, first, rest⟩ := Catalog.run_cons.mp h
    obtain ⟨here, later⟩ := List.forall_mem_cons.mp plain
    exact ih (plainNames_exec names here first) later rest

/-! ## Texts -/

/-- Plain statements are read as they are meant. -/
theorem run_execText (plain : ∀ s ∈ statements, s.Plain) :
    db.run (Catalog.execText refused misread) statements =
      db.run (Catalog.exec refused) statements := by
  induction statements generalizing db with
  | nil => rfl
  | cons s statements ih =>
    obtain ⟨here, later⟩ := List.forall_mem_cons.mp plain
    have first : db.execText refused misread s = db.exec refused s := if_pos here
    unfold Catalog.run at ih ⊢
    rw [List.foldlM_cons, List.foldlM_cons, first]
    exact congrArg _ (funext fun db => ih later)

/-- By induction on the collections. -/
theorem plainNames_of_migrateTables (names : PlainNames schemas db)
    (run : migrateTables (Catalog.exec refused) tableNames db schemas = some (issued, db')) :
    db'.PlainNames := by
  induction schemas generalizing db issued with
  | nil =>
    cases run
    exact names.catalog
  | cons c schemas ih =>
    obtain ⟨here, later⟩ := List.forall_mem_cons.mp names.schemas
    obtain ⟨statements, db₁, rest, plan, first, others, -⟩ := migrateTables_cons.mp run
    have plain := plain_of_migrateTable names.catalog here plan
    exact ih ⟨later, plainNames_run names.catalog plain first⟩ others

theorem migrateTables_execText (names : PlainNames schemas db) :
    migrateTables (Catalog.execText refused misread) tableNames db schemas =
      migrateTables (Catalog.exec refused) tableNames db schemas := by
  induction schemas generalizing db with
  | nil => rfl
  | cons c schemas ih =>
    obtain ⟨here, later⟩ := List.forall_mem_cons.mp names.schemas
    have then_ (statements : List SchemaStatement) (db₁ : Catalog)
        (plan : migrateTable tableNames db c = some statements)
        (run : db.run (Catalog.exec refused) statements = some db₁) :
        migrateTables (Catalog.execText refused misread) tableNames db₁ schemas =
          migrateTables (Catalog.exec refused) tableNames db₁ schemas :=
      ih ⟨later, plainNames_run names.catalog
        (plain_of_migrateTable names.catalog here plan) run⟩
    refine Option.ext fun ⟨issued, db'⟩ => ?_
    rw [migrateTables_cons, migrateTables_cons]
    constructor
    · rintro ⟨statements, db₁, rest, plan, run, others, eq⟩
      rw [run_execText (plain_of_migrateTable names.catalog here plan)] at run
      exact ⟨statements, db₁, rest, plan, run, then_ statements db₁ plan run ▸ others, eq⟩
    · rintro ⟨statements, db₁, rest, plan, run, others, eq⟩
      exact ⟨statements, db₁, rest, plan,
        (run_execText (plain_of_migrateTable names.catalog here plan)).trans run,
        (then_ statements db₁ plan run).trans others, eq⟩

/-- A migration with plain names does what its statements say, and leaves plain names. -/
theorem performMigration_execText (names : PlainNames schemas db) :
    performMigration (Catalog.execText refused misread) schemas db =
        performMigration (Catalog.exec refused) schemas db ∧
      ∀ issued db', performMigration (Catalog.exec refused) schemas db = some (issued, db') →
        db'.PlainNames := by
  have drops : ∀ s ∈ (db.tableNames.filter fun table => !isCollection schemas table).map
      SchemaStatement.dropTable, s.Plain := by
    intro s mem
    obtain ⟨name, unknown, rfl⟩ := List.mem_map.mp mem
    obtain ⟨t, there, rfl⟩ := List.mem_map.mp (List.mem_filter.mp unknown).1
    exact names.catalog.tables t there
  constructor
  · simp only [performMigration, migrateTables_execText names, run_execText drops]
  · intro issued db' run
    obtain ⟨statements, db₁, loop, dropped, -⟩ := performMigration_eq_some.mp run
    exact plainNames_run (plainNames_of_migrateTables names loop) drops dropped

end

end Sqlite

end IsarPlus
