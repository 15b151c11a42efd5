import IsarPlus.Sqlite.Proofs.ColumnOrder
import IsarPlus.Sqlite.Proofs.PlainNames

/-!
# The columns of migrated tables

A migration keeps the columns of a table that need no change in their order, and adds the others
behind them. By induction on the openings of a database, its tables have the columns that the last
opening has left them.
-/

namespace IsarPlus.Sqlite
open Scalar Sql OrderedStore

/-! ## Names of columns -/

/-- The names of the properties, in the order of the schema. -/
def propertyNames (properties : List PropertySchema) : List String :=
  properties.filterMap PropertySchema.name

/-- The columns that a migration leaves of an old schema, with those that it adds behind them. -/
def namesAfter (c old : IsarSchema) : List String :=
  let changes := c.findChanges old
  ((propertyNames old.properties).filter fun name => name ∉ changes.dropProperties) ++
    propertyNames changes.addProperties

theorem map_fst_columns {properties : List PropertySchema} {columns : List (String × String)}
    (declared : properties.mapM column = some columns) :
    columns.map Prod.fst = propertyNames properties := by
  induction properties generalizing columns with
  | nil =>
    cases declared
    rfl
  | cons p properties ih =>
    rw [List.mapM_cons] at declared
    obtain ⟨col, first, declared⟩ := Option.bind_eq_some_iff.mp declared
    obtain ⟨rest, later, eq⟩ := Option.bind_eq_some_iff.mp declared
    cases eq
    obtain ⟨name, named, first⟩ := Option.bind_eq_some_iff.mp first
    obtain ⟨sqlType, -, eq⟩ := Option.bind_eq_some_iff.mp first
    cases eq
    rw [propertyNames, List.filterMap_cons_some named, List.map_cons, ih later]
    rfl

theorem propertyNames_map_readColumn (columns : List (String × String)) :
    propertyNames (columns.map readColumn) = columns.map Prod.fst := by
  unfold propertyNames
  rw [List.filterMap_map]
  exact (List.filterMap_eq_map (f := Prod.fst)) ▸ rfl

/-- The changes to the properties depend on the old properties alone. -/
theorem namesAfter_congr {c old old' : IsarSchema} (same : old.properties = old'.properties) :
    namesAfter c old = namesAfter c old' := by
  unfold namesAfter IsarSchema.findChanges
  rw [same]

/-! ## Catalogs of collections -/

namespace Catalog

/-- What migrations guarantee of a catalog. -/
structure Sound (db : Catalog) : Prop where
  valid : db.Valid
  idFirst : ∀ t ∈ db, t.IdFirst

/-- The columns of the table of a name. -/
def columnsOf (db : Catalog) (name : String) : Option (List (String × String)) :=
  (db.table name).map Table.columns

variable {db db' : Catalog} {refused : Catalog → SchemaStatement → Bool}

theorem sound_nil : Catalog.Sound [] :=
  ⟨⟨by simp [tableNames], nofun, nofun, nofun⟩, nofun⟩

theorem table_map {f : Table → Table} (same : ∀ t, (f t).name = t.name) (name : String) :
    table (db.map f) name = (db.table name).map f := by
  unfold table
  rw [List.find?_map]
  congr 2
  funext t
  rw [Function.comp_apply, same]

theorem table_dropIndexes (names : List String) (name : String) :
    (db.dropIndexes names).table name = (db.table name).map fun t =>
      { t with indexes := t.indexes.filter fun i => i.name ∉ names } := by
  apply table_map
  exact fun t => rfl

theorem columnsOf_dropIndexes (names : List String) (name : String) :
    (db.dropIndexes names).columnsOf name = db.columnsOf name := by
  unfold columnsOf
  rw [table_dropIndexes, Option.map_map]
  rfl

theorem columnsOf_modify {table : String} {f : Table → Table} (same : ∀ t, (f t).name = t.name)
    (name : String) :
    (db.modify table f).columnsOf name =
      if name = table then (db.table name).map fun t => (f t).columns else db.columnsOf name := by
  have keeps (t : Table) : (if t.name = table then f t else t).name = t.name := by
    split
    · exact same t
    · rfl
  unfold columnsOf modify
  rw [table_map keeps, Option.map_map]
  cases found : db.table name with
  | none => simp
  | some t =>
    have named : t.name = name := by
      simpa using List.find?_some found
    simp only [Option.map_some, Function.comp_apply, named]
    split <;> rfl

theorem columnsOf_append (t : Table) (name : String) (fresh : t.name ∉ db.tableNames) :
    columnsOf (db ++ [t]) name = if name = t.name then some t.columns else db.columnsOf name := by
  unfold columnsOf table
  rw [List.find?_append]
  by_cases own : name = t.name
  · subst own
    have absent : db.find? (fun t' => t'.name == t.name) = none := by
      rw [List.find?_eq_none]
      intro t' mem same
      have same : t'.name = t.name := by simpa using same
      exact fresh (same ▸ List.mem_map_of_mem mem)
    rw [absent, if_pos rfl]
    simp
  · simp [own, Ne.symm own]

theorem columnsOf_filter {p : String → Bool} {name : String} (kept : p name = true) :
    columnsOf (db.filter fun t => p t.name) name = db.columnsOf name := by
  unfold columnsOf table
  rw [List.find?_filter]
  congr 2
  funext t
  by_cases same : t.name = name <;> simp [same, kept]

end Catalog

/-! ## One collection -/

section
variable {refused : Catalog → SchemaStatement → Bool} {db db' : Catalog} {c : IsarSchema}
  {statements : List SchemaStatement}

/-- The names of the columns of a table behind its migration. -/
def migratedNames (db : Catalog) (c : IsarSchema) : List String :=
  match readColSchema db c.name with
  | some old => namesAfter c old
  | none => propertyNames c.properties

/-- What one turn of the loop does to the columns of the tables. -/
structure Turned (db db' : Catalog) (c : IsarSchema) : Prop where
  sound : db'.Sound
  others : ∀ name, name ≠ c.name → db'.columnsOf name = db.columnsOf name
  own : ∃ columns, db'.columnsOf c.name = some columns ∧
    columns.map Prod.fst = idColumn :: migratedNames db c

/-- The columns of a table begin with the id, which is no property. -/
theorem columns_eq {t : Table} (idFirst : t.IdFirst) (nodup : (t.columns.map Prod.fst).Nodup) :
    ∃ sqlType rest, t.columns = (idColumn, sqlType) :: rest ∧ t.properties = rest.map readColumn ∧
      idColumn ∉ rest.map Prod.fst := by
  unfold Table.IdFirst at idFirst
  cases columns : t.columns with
  | nil =>
    rw [columns] at idFirst
    cases idFirst
  | cons col rest =>
    rw [columns] at idFirst nodup
    obtain ⟨name, sqlType⟩ := col
    have name : name = idColumn := Option.some.inj idFirst
    subst name
    have absent : idColumn ∉ rest.map Prod.fst := (List.nodup_cons.mp nodup).1
    have others : (rest.filter fun c => c.1 ≠ idColumn) = rest := by
      apply List.filter_eq_self.mpr
      intro col mem
      have ne : col.1 ≠ idColumn := fun same => absent (same ▸ List.mem_map_of_mem mem)
      simpa using ne
    refine ⟨sqlType, rest, rfl, ?_, absent⟩
    rw [Table.properties, columns, List.filter_cons_of_neg (by simp), others]

theorem turned_of_update (sound : db.Sound) (plan : updateTable db c = some statements)
    (run : db.run (Catalog.exec refused) statements = some db') : Turned db db' c := by
  obtain ⟨old, columns, read, declared, valid', rfl⟩ := run_updateTable sound.valid plan run
  have read' := read
  obtain ⟨t, mem, name, -, rfl⟩ := (readColSchema_eq_some sound.valid).mp read
  obtain ⟨sqlType, rest, eq, properties, absent⟩ :=
    columns_eq (sound.idFirst t mem) (sound.valid.columns t mem)
  let old : IsarSchema :=
    { name := c.name, idName := none, embedded := false, properties := t.properties
      indexes := t.indexes.map readIndex, version := 0 }
  let drops := (c.findChanges old).dropProperties
  have keepsId : idColumn ∉ drops := by
    intro dropped
    obtain ⟨p, there, same⟩ := List.mem_map.mp (dropProperties_sub c old _ dropped)
    exact idColumn_notMem_properties (List.mem_filter.mp there).1 same
  have names : ((t.columns.filter fun col => col.1 ∉ drops) ++ columns).map Prod.fst =
      idColumn :: namesAfter c old := by
    have kept : ((rest.filter fun col => col.1 ∉ drops).map Prod.fst) =
        (propertyNames t.properties).filter fun name => name ∉ drops := by
      rw [properties, propertyNames_map_readColumn, List.filter_map]
      rfl
    rw [eq, List.filter_cons_of_pos (by simpa using keepsId), List.cons_append, List.map_cons,
      List.map_append, kept, map_fst_columns declared]
    rfl
  have named (t : Table) : (Table.updated c.name (c.findChanges old) columns t).name = t.name := rfl
  refine ⟨⟨valid', fun t' mem' => ?_⟩, fun other ne => ?_, ?_⟩
  · rcases Catalog.of_mem_modify mem' with ⟨there, -⟩ | ⟨t₀, there, name₀, rfl⟩
    · obtain ⟨t₀, mem₀, rfl⟩ := List.mem_map.mp there
      exact sound.idFirst t₀ mem₀
    · obtain ⟨t₁, mem₁, rfl⟩ := List.mem_map.mp there
      obtain rfl := List.inj_on_of_nodup_map sound.valid.tables mem₁ mem (name₀.trans name.symm)
      exact congrArg List.head? names
  · rw [Catalog.columnsOf_modify named, if_neg ne, Catalog.columnsOf_dropIndexes]
  · have found : (Catalog.modify (db.dropIndexes ((c.findChanges old).dropIndexes.map
        (indexName c.name))) c.name (Table.updated c.name (c.findChanges old) columns)).columnsOf
          c.name = _ := Catalog.columnsOf_modify named c.name
    rw [if_pos rfl, Catalog.table_dropIndexes, (Catalog.table_eq_some sound.valid).mpr ⟨mem, name⟩]
      at found
    refine ⟨_, found, ?_⟩
    rw [migratedNames, read']
    exact names

theorem turned_of_create (sound : db.Sound) {create : SchemaStatement}
    (plan : createTableSql c = some create)
    (run : db.run (Catalog.exec refused) (create :: c.indexes.map (createIndexSql c.name)) =
      some db') :
    Turned db db' c := by
  obtain ⟨columns, declared, fresh, valid', rfl⟩ := run_createTable sound.valid plan run
  have none : readColSchema db c.name = none := by
    cases read : readColSchema db c.name with
    | none => rfl
    | some old =>
      obtain ⟨t, mem, name, -⟩ := (readColSchema_eq_some sound.valid).mp read
      exact absurd (name ▸ List.mem_map_of_mem mem) fresh
  have names : (created c.name columns).columns.map Prod.fst =
      idColumn :: propertyNames c.properties := by
    have all : propertyNames c.named = propertyNames c.properties := by
      unfold propertyNames IsarSchema.named
      rw [List.filterMap_filter]
      apply List.filterMap_congr
      intro p mem
      cases p.name <;> rfl
    rw [← all, ← map_fst_columns declared]
    rfl
  have named (t : Table) : Table.name
      { t with indexes := (c.indexes.map (sqlIndex c.name)).reverse ++ t.indexes } = t.name := rfl
  refine ⟨⟨valid', fun t mem => ?_⟩, fun other ne => ?_, ?_⟩
  · have either {t : Table} (mem : t ∈ db ++ [created c.name columns]) : t.IdFirst := by
      rcases List.mem_append.mp mem with there | new
      · exact sound.idFirst t there
      · rw [List.mem_singleton.mp new]
        rfl
    rcases Catalog.of_mem_modify mem with ⟨there, -⟩ | ⟨t₀, there, -, rfl⟩
    · exact either there
    · have first : t₀.IdFirst := either there
      exact first
  · rw [Catalog.columnsOf_modify named, if_neg ne, Catalog.columnsOf_append _ _ fresh]
    exact if_neg ne
  · refine ⟨(created c.name columns).columns, ?_, ?_⟩
    · have found := Catalog.columnsOf_append (created c.name columns) c.name fresh
      rw [Catalog.columnsOf_modify named, if_pos rfl]
      exact found.trans (if_pos rfl)
    · rw [migratedNames, none]
      exact names

/-- One turn of the loop. -/
theorem turned_of_migrateTable (sound : db.Sound) (collection : c.embedded = false)
    {tableNames : List String} (plan : migrateTable tableNames db c = some statements)
    (run : db.run (Catalog.exec refused) statements = some db') : Turned db db' c := by
  unfold migrateTable at plan
  rw [if_neg (by simp [collection])] at plan
  by_cases known : c.name ∈ tableNames
  · rw [if_pos known] at plan
    exact turned_of_update sound plan run
  · rw [if_neg known] at plan
    obtain ⟨create, table, eq⟩ := Option.bind_eq_some_iff.mp plan
    cases eq
    exact turned_of_create sound table run

/-! ## A whole migration -/

variable {schemas : List IsarSchema} {issued : List SchemaStatement}

/-- What is added and dropped depends on the columns of the table alone. -/
theorem migratedNames_congr (same : db.columnsOf c.name = db'.columnsOf c.name) :
    migratedNames db c = migratedNames db' c := by
  have same : (db.table c.name).map Table.columns = (db'.table c.name).map Table.columns := same
  unfold migratedNames readColSchema
  simp only [same]
  split_ifs
  · exact namesAfter_congr rfl
  · rfl

/-- What the loop does to the columns of the tables. -/
structure MigratedColumns (db db' : Catalog) (schemas : List IsarSchema) : Prop where
  sound : db'.Sound
  others : ∀ name, name ∉ collectionNames schemas → db'.columnsOf name = db.columnsOf name
  own : ∀ c ∈ schemas, c.embedded = false → ∃ columns, db'.columnsOf c.name = some columns ∧
    columns.map Prod.fst = idColumn :: migratedNames db c

/-- By induction on the collections: a turn of the loop leaves the columns of the others for their
own turns. -/
theorem migratedColumns_of_migrateTables {tableNames : List String} (sound : db.Sound)
    (distinct : (collectionNames schemas).Nodup)
    (run : migrateTables (Catalog.exec refused) tableNames db schemas = some (issued, db')) :
    MigratedColumns db db' schemas := by
  induction schemas generalizing db issued with
  | nil =>
    cases run
    exact ⟨sound, fun _ _ => rfl, nofun⟩
  | cons c schemas ih =>
    obtain ⟨statements, db₁, rest, plan, first, run, -⟩ := migrateTables_cons.mp run
    cases collection : c.embedded with
    | true =>
      have nothing : statements = [] := by simpa [migrateTable, collection] using plan.symm
      subst nothing
      cases first
      have names : collectionNames (c :: schemas) = collectionNames schemas := by
        rw [collectionNames, List.filter_cons_of_neg (by simp [collection]), collectionNames]
      rw [names] at distinct
      have migrated := ih sound distinct run
      refine ⟨migrated.sound, names ▸ migrated.others, fun c' mem plain => ?_⟩
      rcases List.mem_cons.mp mem with rfl | mem
      · rw [collection] at plain
        cases plain
      · exact migrated.own c' mem plain
    | false =>
      rw [collectionNames_cons collection, List.nodup_cons] at distinct
      have turned := turned_of_migrateTable sound collection plan first
      have migrated := ih turned.sound distinct.2 run
      refine ⟨migrated.sound, fun name absent => ?_, fun c' mem plain => ?_⟩
      · rw [collectionNames_cons collection, List.mem_cons, not_or] at absent
        rw [migrated.others name absent.2, turned.others name absent.1]
      · rcases List.mem_cons.mp mem with rfl | mem
        · rw [migrated.others _ distinct.1]
          exact turned.own
        · obtain ⟨columns, found, names⟩ := migrated.own c' mem plain
          have ne : c'.name ≠ c.name :=
            fun same => distinct.1 (same ▸ name_mem_collectionNames mem plain)
          have before : migratedNames db₁ c' = migratedNames db c' :=
            migratedNames_congr (turned.others _ ne)
          exact ⟨columns, found, before ▸ names⟩

/-- The tables of the collections behind a migration. -/
theorem migratedColumns_of_performMigration (sound : db.Sound)
    (distinct : (collectionNames schemas).Nodup)
    (run : performMigration (Catalog.exec refused) schemas db = some (issued, db')) :
    db'.Sound ∧ ∀ c ∈ schemas, c.embedded = false → ∃ t, db'.table c.name = some t ∧
      t.columns.map Prod.fst = idColumn :: migratedNames db c := by
  obtain ⟨statements, db₁, loop, drops, -⟩ := performMigration_eq_some.mp run
  have migrated := migratedColumns_of_migrateTables sound distinct loop
  have left := Catalog.run_dropTables drops
  refine ⟨⟨?_, fun t mem => ?_⟩, fun c mem plain => ?_⟩
  · rw [left]
    exact Catalog.valid_filter migrated.sound.valid _
  · rw [left] at mem
    exact migrated.sound.idFirst t (List.mem_filter.mp mem).1
  · obtain ⟨columns, found, names⟩ := migrated.own c mem plain
    have known : isCollection schemas c.name = true :=
      isCollection_iff.mpr (name_mem_collectionNames mem plain)
    have kept : Catalog.columnsOf (db₁.filter fun t => t.name ∉
        db.tableNames.filter fun table => !isCollection schemas table) c.name =
          db₁.columnsOf c.name :=
      Catalog.columnsOf_filter (p := fun name => decide (name ∉
        db.tableNames.filter fun table => !isCollection schemas table)) (by simp [known])
    rw [← left, found] at kept
    obtain ⟨t, there, rfl⟩ := Option.map_eq_some_iff.mp kept
    exact ⟨t, there, names⟩

/-! ## The order of the properties -/

/-- The properties of a schema can be counted, and what a migration leaves of the columns of its
table with those that it adds are the properties in the order of the schema. -/
structure InOrder (db : Catalog) (c : IsarSchema) : Prop where
  count : (propertyNames c.properties).length < 2 ^ 32
  same : ∀ old, readColSchema db c.name = some old →
    namesAfter c old = propertyNames c.properties

theorem propertyNames_named : propertyNames c.named = propertyNames c.properties := by
  unfold propertyNames IsarSchema.named
  rw [List.filterMap_filter]
  apply List.filterMap_congr
  intro p mem
  cases p.name <;> rfl

/-- A migration loses no property. -/
theorem perm_migratedNames (sound : db.Sound) (verified : c.Verified) :
    (migratedNames db c).Perm (propertyNames c.properties) := by
  unfold migratedNames
  cases read : readColSchema db c.name with
  | none => exact .refl _
  | some old =>
    obtain ⟨t, mem, -, -, rfl⟩ := (readColSchema_eq_some sound.valid).mp read
    let old : IsarSchema :=
      { name := c.name, idName := none, embedded := false, properties := t.properties
        indexes := t.indexes.map readIndex, version := 0 }
    let drops := (c.findChanges old).dropProperties
    have named : old.named = t.properties := by
      rw [IsarSchema.named, filter_isSome_properties]
    have oldNames : (old.named.map PropertySchema.name).Nodup := by
      rw [named]
      exact properties_names_nodup (sound.valid.columns t mem)
    have perm := IsarSchema.perm_properties oldNames verified.properties
    have kept : ((propertyNames t.properties).filter fun name => name ∉ drops) =
        propertyNames (old.named.filter fun p => p.name ∉ drops.map some) := by
      rw [named]
      unfold propertyNames
      rw [List.filter_filterMap, List.filterMap_filter]
      apply List.filterMap_congr
      intro p there
      have iff (name : String) : some name ∈ drops.map some ↔ name ∈ drops :=
        List.mem_map_of_injective (Option.some_injective _)
      cases p.name with
      | none => simp
      | some name => simp [iff, Option.filter]
    have whole : namesAfter c old = propertyNames
        ((old.named.filter fun p => p.name ∉ drops.map some) ++
          (c.findChanges old).addProperties) := by
      have append (l l' : List PropertySchema) :
          propertyNames (l ++ l') = propertyNames l ++ propertyNames l' := List.filterMap_append
      rw [append, ← kept]
      rfl
    show (namesAfter c old).Perm (propertyNames c.properties)
    rw [whole, ← propertyNames_named]
    exact perm.filterMap _

/-- The names of a collection are those of its schema. -/
theorem names_of_openCollection {collection : SQLiteCollection}
    (opened : openCollection schemas c = some collection) :
    collection.properties.map SQLiteProperty.name = propertyNames c.properties := by
  obtain ⟨properties, all, rfl⟩ := Option.map_eq_some_iff.mp opened
  show properties.map SQLiteProperty.name = propertyNames c.properties
  have names : propertyNames c.properties =
      (c.properties.filterMap fun p => p.name.map fun name => (name, p)).map Prod.fst := by
    unfold propertyNames
    rw [List.map_filterMap]
    apply List.filterMap_congr
    intro p mem
    cases p.name <;> rfl
  rw [names]
  clear opened names
  generalize c.properties.filterMap (fun p => p.name.map fun name => (name, p)) = pairs at all
  induction pairs generalizing properties with
  | nil =>
    cases all
    rfl
  | cons pair pairs ih =>
    rw [List.mapM_cons] at all
    obtain ⟨p, first, all⟩ := Option.bind_eq_some_iff.mp all
    obtain ⟨rest, later, eq⟩ := Option.bind_eq_some_iff.mp all
    cases eq
    obtain ⟨index, -, rfl⟩ := Option.map_eq_some_iff.mp first
    rw [List.map_cons, List.map_cons, ih rest later]

theorem inOrder_iff : InOrder db c ↔ (propertyNames c.properties).length < 2 ^ 32 ∧
    migratedNames db c = propertyNames c.properties := by
  have same : migratedNames db c = propertyNames c.properties ↔
      ∀ old, readColSchema db c.name = some old →
        namesAfter c old = propertyNames c.properties := by
    unfold migratedNames
    cases read : readColSchema db c.name with
    | none => simp
    | some old => simp
  rw [same]
  exact ⟨fun h => ⟨h.count, h.same⟩, fun h => ⟨h.1, h.2⟩⟩

/-- An index counts the columns behind the id as long as it does not start over. -/
theorem toNat_index {i : Nat} (small : i + 1 < 2 ^ 32) : (UInt32.ofNat i + 1).toNat = i + 1 := by
  have one : (1 : UInt32).toNat = 1 := rfl
  rw [UInt32.toNat_add, UInt32.toNat_ofNat', one]
  omega

/-- A list is found behind the id, entry by entry, where it is the list there. -/
theorem forall_getElem?_iff {id : String} {names properties : List String}
    (length : names.length = properties.length) (absent : id ∉ properties) :
    (∀ (i : Nat) (name : String), properties[i]? = some name →
      (id :: names)[(UInt32.ofNat i + 1).toNat]? = some name) ↔
        properties.length < 2 ^ 32 ∧ names = properties := by
  constructor
  · intro found
    have count : properties.length < 2 ^ 32 := by
      by_contra large
      -- the property at this place is read from the first column
      have inside : 2 ^ 32 - 1 < properties.length := by omega
      have first := found (2 ^ 32 - 1) _ (List.getElem?_eq_getElem inside)
      have zero : (UInt32.ofNat (2 ^ 32 - 1) + 1).toNat = 0 := by decide
      rw [zero] at first
      have same : id = properties[2 ^ 32 - 1] := Option.some.inj first
      exact absent (same ▸ List.getElem_mem inside)
    refine ⟨count, List.ext_getElem length fun i inside inside' => ?_⟩
    have here := found i _ (List.getElem?_eq_getElem inside')
    rw [toNat_index (by omega), List.getElem?_cons_succ, List.getElem?_eq_getElem inside] at here
    exact Option.some.inj here
  · intro ⟨count, same⟩ i name here
    have inside : i < properties.length := (List.getElem?_eq_some_iff.mp here).1
    rw [toNat_index (by omega), List.getElem?_cons_succ, same]
    exact here

variable {w : DetailedCollection}

theorem distinct_of_verified (verified : c.Verified)
    (properties : w.collection.properties.map SQLiteProperty.name = propertyNames c.properties) :
    w.Distinct where
  nodup := by
    rw [properties]
    have all : (c.named.map PropertySchema.name).Nodup := IsarSchema.nodup_named verified.properties
    have eq : c.named.map PropertySchema.name = (propertyNames c.properties).map some := by
      rw [← propertyNames_named]
      unfold propertyNames
      rw [List.map_filterMap, ← List.filterMap_eq_map]
      apply List.filterMap_congr
      intro p mem
      obtain ⟨name, eq⟩ := Option.isSome_iff_exists.mp (IsarSchema.isSome_of_mem_named mem)
      rw [Function.comp_apply, eq]
      rfl
    rw [eq] at all
    exact all.of_map _
  id p mem same := by
    have known : p.name ∈ propertyNames c.properties :=
      properties ▸ List.mem_map_of_mem mem
    obtain ⟨q, memQ, named⟩ := List.mem_filterMap.mp known
    exact verified.name q memQ p.name named (by rw [same]; decide)

/-- The table and the collection agree where the migration has left the columns in the order of the
schema. -/
theorem aligned_iff (sound : db.Sound) (verified : c.Verified)
    (columns : w.table.columns.map Prod.fst = idColumn :: migratedNames db c)
    (properties : w.collection.properties.map SQLiteProperty.name = propertyNames c.properties) :
    w.Aligned ↔ InOrder db c := by
  have distinct := distinct_of_verified verified properties
  have absent : idColumn ∉ propertyNames c.properties := by
    rw [← properties]
    intro mem
    obtain ⟨p, mem, same⟩ := List.mem_map.mp mem
    exact distinct.id p mem same
  have length := (perm_migratedNames sound verified).length_eq
  rw [inOrder_iff, ← forall_getElem?_iff length absent, ← columns, ← properties]
  simp only [List.getElem?_map]
  constructor
  · intro aligned i name here
    obtain ⟨p, there, rfl⟩ := Option.map_eq_some_iff.mp here
    exact aligned i p there
  · intro found i p here
    exact found i p.name (by rw [here]; rfl)

end

/-! ## Histories -/

/-- An opening of a database: the statements that fail in it, and its collections. -/
structure Opening where
  refused : Catalog → SchemaStatement → Bool
  schemas : List IsarSchema

namespace Opening

/-- The statements of the opening are read as they are meant. -/
def exec (o : Opening) : Catalog → SchemaStatement → Option Catalog := Catalog.exec o.refused

/-- They are texts, which may be misread. -/
def execText (misread : Catalog → SchemaStatement → Option Catalog) (o : Opening) :
    Catalog → SchemaStatement → Option Catalog := Catalog.execText o.refused misread

end Opening

section
variable (execute : Opening → Catalog → SchemaStatement → Option Catalog)

/-- The catalog behind an opening; a migration that fails is rolled back. -/
def Opening.run (db : Catalog) (o : Opening) : Catalog :=
  ((performMigration (execute o) o.schemas db).map Prod.snd).getD db

/-- The catalog behind the openings of a new database. -/
def catalogAfter (history : List Opening) : Catalog := history.foldl (Opening.run execute) []

/-- What holds of every opening that succeeds, with the catalogs before and behind it. -/
def EachOpening (history : List Opening) (P : Catalog → Opening → Catalog → Prop) : Prop :=
  ∀ before o behind, history = before ++ o :: behind → ∀ issued db',
    performMigration (execute o) o.schemas (catalogAfter execute before) = some (issued, db') →
      P (catalogAfter execute before) o db'

end

/-- The names of the collections are plain in every opening. -/
def PlainHistory (history : List Opening) : Prop :=
  ∀ o ∈ history, ∀ c ∈ o.schemas, c.embedded = false → c.PlainNames

section
variable {misread : Catalog → SchemaStatement → Option Catalog} {history : List Opening}

/-- By induction on the openings. -/
theorem catalogAfter_execText (names : PlainHistory history) :
    catalogAfter (Opening.execText misread) history = catalogAfter Opening.exec history ∧
      (catalogAfter Opening.exec history).PlainNames := by
  induction history using List.reverseRecOn with
  | nil => exact ⟨rfl, nofun, nofun, nofun⟩
  | append_singleton history o ih =>
    obtain ⟨before, here⟩ := List.forall_mem_append.mp names
    obtain ⟨same, plain⟩ := ih before
    have names : PlainNames o.schemas (catalogAfter Opening.exec history) :=
      ⟨here o (List.mem_singleton_self o), plain⟩
    obtain ⟨text, kept⟩ := @performMigration_execText o.refused misread _ _ names
    have text : performMigration (o.execText misread) o.schemas (catalogAfter Opening.exec history) =
        performMigration o.exec o.schemas (catalogAfter Opening.exec history) := text
    have last (execute : Opening → Catalog → SchemaStatement → Option Catalog) :
        catalogAfter execute (history ++ [o]) = Opening.run execute (catalogAfter execute history) o :=
      List.foldl_append
    rw [last, last, same]
    constructor
    · unfold Opening.run
      rw [text]
    · unfold Opening.run
      cases migrated : performMigration o.exec o.schemas (catalogAfter Opening.exec history) with
      | none => exact plain
      | some result => exact kept result.1 result.2 migrated

/-- A history with plain names is as its statements are meant. -/
theorem eachOpening_execText (names : PlainHistory history)
    {P : Catalog → Opening → Catalog → Prop} :
    EachOpening (Opening.execText misread) history P ↔ EachOpening Opening.exec history P := by
  refine forall_congr' fun before => forall_congr' fun o => forall_congr' fun behind =>
    forall_congr' fun split => ?_
  have earlier : PlainHistory before := fun o' mem => names o' (by rw [split]; simp [mem])
  obtain ⟨same, plain⟩ := @catalogAfter_execText misread _ earlier
  have here : PlainNames o.schemas (catalogAfter Opening.exec before) :=
    ⟨names o (by rw [split]; simp), plain⟩
  have text : performMigration (o.execText misread) o.schemas (catalogAfter Opening.exec before) =
      performMigration o.exec o.schemas (catalogAfter Opening.exec before) :=
    (performMigration_execText here).1
  rw [same, text]

end

/-- What holds of every table with its collection. -/
def EachCollection (o : Opening) (P : IsarSchema → SQLiteCollection → Prop) : Prop :=
  ∀ c ∈ o.schemas, c.embedded = false → ∀ collection,
    openCollection o.schemas c = some collection → P c collection

/-- The schemas of every opening are verified, and no two collections share a name. -/
def Accepted (history : List Opening) : Prop :=
  ∀ o ∈ history, IsarSchema.verifySchemas o.schemas = .ok () ∧ (collectionNames o.schemas).Nodup

/-- By induction on the openings. -/
theorem sound_catalogAfter {history : List Opening} (accepted : Accepted history) :
    (catalogAfter Opening.exec history).Sound := by
  have run (rest : List Opening) (sub : ∀ o ∈ rest, o ∈ history) (db : Catalog)
      (sound : db.Sound) : Catalog.Sound (rest.foldl (Opening.run Opening.exec) db) := by
    induction rest generalizing db with
    | nil => exact sound
    | cons o rest ih =>
      obtain ⟨here, later⟩ := List.forall_mem_cons.mp sub
      refine ih later _ ?_
      unfold Opening.run
      cases migrated : performMigration o.exec o.schemas db with
      | none => exact sound
      | some result =>
        obtain ⟨issued, db'⟩ := result
        exact (migratedColumns_of_performMigration sound (accepted o here).2 migrated).1
  exact run history (fun _ mem => mem) [] Catalog.sound_nil

/-- The JSON of every row has every column under its name, and so have the details of every
operation. -/
structure DetailedCollection.NamesColumns (w : DetailedCollection) : Prop where
  json : ∀ id row, w.Shows (w.rowJson id row) row
  details : ∀ unique rows operation details, w.details unique rows operation = some details →
    ∀ d ∈ details, w.Names (operation.tables unique rows) d

/-- Visits with these strings. -/
def visitSchema (names : List String) : IsarSchema where
  name := "Visit"
  idName := some "id"
  embedded := false
  properties := names.map fun name => ⟨some name, .string, none⟩
  indexes := []
  version := 0

def visitOpening (names : List String) : Opening where
  refused := fun _ _ => false
  schemas := [visitSchema names]

/-- Libraries that know one JSON text. -/
def trueCodecs : Codecs where
  toString := fun _ => []
  fromStr := fun s => if s = ['t', 'r', 'u', 'e'] then some (.bool true) else none
  encode := fun _ => []
  decode := fun _ => none

def trueFormats : Formats where
  fromStr := trueCodecs.fromStr
  ryuF32 := fun v => JsonText.integer v.bits.toNat
  ryuF64 := fun v => JsonText.integer v.bits.toNat
  displayF32 := fun v => JsonText.decimal v.bits.toNat
  displayF64 := fun v => JsonText.decimal v.bits.toNat

def zeroCasts : Casts where
  text := fun _ => []
  integer := fun _ => 0
  real := fun _ => ⟨0⟩

/-- The second opening adds the guest. -/
def guestAdded : List Opening := [visitOpening ["city"], visitOpening ["city", "guest"]]

/-- The table of the second opening has the new column behind the old one. -/
example : ((catalogAfter Opening.exec guestAdded).table "Visit").map Table.columns =
    some [("_rowid_", "INTEGER"), ("city", "TEXT"), ("guest", "TEXT")] := by decide +kernel

/-- The watched collection of a reopened database: the table has the guest first, and the schema
has the city first. -/
def reorderedVisits : DetailedCollection where
  formats := trueFormats
  codecs := trueCodecs
  casts := zeroCasts
  table := { name := "Visit", indexes := []
             columns := [("_rowid_", "INTEGER"), ("guest", "TEXT"), ("city", "TEXT")] }
  collection := { name := "Visit", idName := some "id"
                  properties := [⟨"city", .string, none⟩, ⟨"guest", .string, none⟩] }

def visit (guest city : List Char) : Row :=
  fun name => if name = "guest" then .text guest else if name = "city" then .text city else .null

end IsarPlus.Sqlite
