import IsarPlus.Core.SchemaChanges
import IsarPlus.Sqlite.SchemaManager
import Mathlib

/-!
# What a migration leaves

When the schema that is read back from the tables is the schema that they were created from.
-/

namespace IsarPlus.Sqlite
open IsarSchema

/-! ## Names -/

theorem takeWhile_append_cons {p : Char → Bool} {c : Char} (stop : p c = false) {s : List Char}
    (all : ∀ d ∈ s, p d = true) (rest : List Char) : (s ++ c :: rest).takeWhile p = s := by
  rw [List.takeWhile_append_of_pos all, List.takeWhile_cons_of_neg (by simp [stop]),
    List.append_nil]

/-- The name of an index is read back if it has no underscore. -/
theorem lastPiece_indexName {index : String} (plain : '_' ∉ index.toList) (table : String) :
    lastPiece (indexName table index) = index := by
  have toList : (indexName table index).toList.reverse =
      index.toList.reverse ++ '_' :: table.toList.reverse := by
    simp [indexName]
  rw [lastPiece, toList, takeWhile_append_cons (by simp)]
  · simp
  · intro c mem
    have : c ≠ '_' := fun eq => plain (eq ▸ List.mem_reverse.mp mem)
    simpa using this

/-- What is read as a name has no underscore. -/
theorem underscore_notMem_lastPiece (name : String) : '_' ∉ (lastPiece name).toList := by
  intro mem
  rw [lastPiece, String.toList_ofList, List.mem_reverse] at mem
  simpa using List.mem_takeWhile_imp mem

theorem indexName_inj {table index index' : String} :
    indexName table index = indexName table index' ↔ index = index' := by
  simp [indexName]

/-! ## Declared types -/

/-- A type without a target is read back as it was declared. -/
theorem sqlDataType_dataTypeSql {p : PropertySchema} (scalar : p.dataType ≠ .object)
    (scalarList : p.dataType ≠ .objectList) {sqlType : String}
    (declared : dataTypeSql p = some sqlType) : sqlDataType sqlType = (p.dataType, none) := by
  cases type : p.dataType <;> simp only [dataTypeSql, type, Option.some.injEq] at declared <;>
    first
    | exact absurd type scalar
    | exact absurd type scalarList
    | (subst declared; decide)

/-! ## Catalogs -/

namespace Catalog

/-- The catalog without the indexes of the given names. -/
def dropIndexes (db : Catalog) (names : List String) : Catalog :=
  db.map fun t => { t with indexes := t.indexes.filter fun i => i.name ∉ names }

/-- What SQLite guarantees of its catalog. -/
structure Valid (db : Catalog) : Prop where
  tables : db.tableNames.Nodup
  columns : ∀ t ∈ db, (t.columns.map Prod.fst).Nodup
  indexes : ∀ t ∈ db, (t.indexes.map SqlIndex.name).Nodup
  owner : ∀ t ∈ db, ∀ t' ∈ db, ∀ i ∈ t.indexes, ∀ i' ∈ t'.indexes, i.name = i'.name →
    t.name = t'.name

variable {refused : Catalog → SchemaStatement → Bool} {db db' : Catalog}

theorem hasIndex_iff {name : String} :
    db.hasIndex name = true ↔ ∃ t ∈ db, ∃ i ∈ t.indexes, i.name = name := by
  simp [hasIndex]

/-- The table of a name. -/
theorem table_eq_some (valid : db.Valid) {name : String} {t : Table} :
    db.table name = some t ↔ t ∈ db ∧ t.name = name := by
  have found := @KeyedDiff.find?_key_eq_some _ _ Table.name db _ name t valid.tables
  rw [← found, table]
  rfl

@[simp] theorem tableNames_dropIndexes (names : List String) :
    (db.dropIndexes names).tableNames = db.tableNames := by
  simp [tableNames, dropIndexes]

theorem tableNames_modify {name : String} {f : Table → Table} (same : ∀ t, (f t).name = t.name) :
    (db.modify name f).tableNames = db.tableNames := by
  simp only [tableNames, modify, List.map_map]
  refine List.map_congr_left fun t _ => ?_
  show (if t.name = name then f t else t).name = t.name
  split
  · exact same t
  · rfl

/-! ### Validity -/

theorem valid_dropIndexes (valid : db.Valid) (names : List String) :
    (db.dropIndexes names).Valid := by
  have of {t : Table} (mem : t ∈ db.dropIndexes names) : ∃ t₀ ∈ db, t.name = t₀.name ∧
      t.columns = t₀.columns ∧ t.indexes.Sublist t₀.indexes := by
    obtain ⟨t₀, mem₀, rfl⟩ := List.mem_map.mp mem
    exact ⟨t₀, mem₀, rfl, rfl, List.filter_sublist⟩
  refine ⟨by simpa using valid.tables, fun t mem => ?_, fun t mem => ?_,
    fun t mem t' mem' i here i' here' same => ?_⟩
  · obtain ⟨t₀, mem, -, columns, -⟩ := of mem
    rw [columns]
    exact valid.columns t₀ mem
  · obtain ⟨t₀, mem, -, -, indexes⟩ := of mem
    exact (valid.indexes t₀ mem).sublist (indexes.map _)
  · obtain ⟨t₀, mem, name, -, indexes⟩ := of mem
    obtain ⟨t₁, mem', name', -, indexes'⟩ := of mem'
    rw [name, name']
    exact valid.owner t₀ mem t₁ mem' i (indexes.subset here) i' (indexes'.subset here') same

theorem valid_filter (valid : db.Valid) (p : Table → Bool) : Valid (db.filter p) := by
  have sub {t : Table} (mem : t ∈ db.filter p) : t ∈ db := (List.mem_filter.mp mem).1
  exact ⟨valid.tables.sublist (List.Sublist.map _ List.filter_sublist),
    fun t mem => valid.columns t (sub mem), fun t mem => valid.indexes t (sub mem),
    fun t mem t' mem' => valid.owner t (sub mem) t' (sub mem')⟩

/-- Changing the columns of a table. -/
theorem valid_modifyColumns (valid : db.Valid) (name : String)
    {f : List (String × String) → List (String × String)}
    (nodup : ∀ t ∈ db, t.name = name → ((f t.columns).map Prod.fst).Nodup) :
    (db.modify name fun t => { t with columns := f t.columns }).Valid := by
  have of {t : Table} (mem : t ∈ db.modify name fun t => { t with columns := f t.columns }) :
      ∃ t₀ ∈ db, t.name = t₀.name ∧ t.indexes = t₀.indexes ∧ (t.columns.map Prod.fst).Nodup := by
    obtain ⟨t₀, mem₀, rfl⟩ := List.mem_map.mp mem
    by_cases same : t₀.name = name
    · rw [if_pos same]
      exact ⟨t₀, mem₀, rfl, rfl, nodup t₀ mem₀ same⟩
    · rw [if_neg same]
      exact ⟨t₀, mem₀, rfl, rfl, valid.columns t₀ mem₀⟩
  refine ⟨?_, fun t mem => ?_, fun t mem => ?_, fun t mem t' mem' i here i' here' same => ?_⟩
  · rw [tableNames_modify]
    · exact valid.tables
    · exact fun t => rfl
  · obtain ⟨t₀, -, -, -, nodup⟩ := of mem
    exact nodup
  · obtain ⟨t₀, mem, -, indexes, -⟩ := of mem
    rw [indexes]
    exact valid.indexes t₀ mem
  · obtain ⟨t₀, mem, name, indexes, -⟩ := of mem
    obtain ⟨t₁, mem', name', indexes', -⟩ := of mem'
    rw [name, name']
    exact valid.owner t₀ mem t₁ mem' i (indexes ▸ here) i' (indexes' ▸ here') same

/-- Adding an index of a new name to a table. -/
theorem valid_addIndex (valid : db.Valid) (name : String) {index : SqlIndex}
    (fresh : db.hasIndex index.name = false) :
    (db.modify name fun t => { t with indexes := index :: t.indexes }).Valid := by
  have unused (t : Table) (mem : t ∈ db) (i : SqlIndex) (here : i ∈ t.indexes) :
      i.name ≠ index.name := by
    intro same
    rw [← Bool.not_eq_true, hasIndex_iff] at fresh
    exact fresh ⟨t, mem, i, here, same⟩
  have of {t : Table} (mem : t ∈ db.modify name fun t => { t with indexes := index :: t.indexes }) :
      ∃ t₀ ∈ db, t.name = t₀.name ∧ t.columns = t₀.columns ∧
        (t.indexes = t₀.indexes ∨ t₀.name = name ∧ t.indexes = index :: t₀.indexes) := by
    obtain ⟨t₀, mem₀, rfl⟩ := List.mem_map.mp mem
    by_cases same : t₀.name = name
    · rw [if_pos same]
      exact ⟨t₀, mem₀, rfl, rfl, Or.inr ⟨same, rfl⟩⟩
    · rw [if_neg same]
      exact ⟨t₀, mem₀, rfl, rfl, Or.inl rfl⟩
  refine ⟨?_, fun t mem => ?_, fun t mem => ?_, fun t mem t' mem' i here i' here' same => ?_⟩
  · rw [tableNames_modify]
    · exact valid.tables
    · exact fun t => rfl
  · obtain ⟨t₀, mem, -, columns, -⟩ := of mem
    rw [columns]
    exact valid.columns t₀ mem
  · obtain ⟨t₀, mem, -, -, indexes | ⟨-, indexes⟩⟩ := of mem
    · rw [indexes]
      exact valid.indexes t₀ mem
    · rw [indexes, List.map_cons, List.nodup_cons]
      refine ⟨fun there => ?_, valid.indexes t₀ mem⟩
      obtain ⟨i, here, same⟩ := List.mem_map.mp there
      exact unused t₀ mem i here same
  · obtain ⟨t₀, mem₀, name₀, -, indexes⟩ := of mem
    obtain ⟨t₁, mem₁, name₁, -, indexes'⟩ := of mem'
    rw [name₀, name₁]
    have old {t t₀ : Table} (indexes : t.indexes = t₀.indexes ∨
        t₀.name = name ∧ t.indexes = index :: t₀.indexes) {i : SqlIndex} (here : i ∈ t.indexes) :
        i ∈ t₀.indexes ∨ t₀.name = name ∧ i = index := by
      rcases indexes with indexes | ⟨owner, indexes⟩
      · exact Or.inl (indexes ▸ here)
      · rw [indexes, List.mem_cons] at here
        exact here.symm.imp id fun eq => ⟨owner, eq⟩
    rcases old indexes here with here | ⟨owner, rfl⟩
    · rcases old indexes' here' with here' | ⟨-, rfl⟩
      · exact valid.owner t₀ mem₀ t₁ mem₁ i here i' here' same
      · exact absurd same (unused t₀ mem₀ i here)
    · rcases old indexes' here' with here' | ⟨owner', -⟩
      · exact absurd same.symm (unused t₁ mem₁ i' here')
      · rw [owner, owner']

/-- Adding a table of a new name. -/
theorem valid_createTable (valid : db.Valid) {name : String} {columns : List (String × String)}
    (fresh : name ∉ db.tableNames) (nodup : (columns.map Prod.fst).Nodup) :
    Valid (db ++ [{ name, columns, indexes := [] }]) := by
  have of {t : Table} (mem : t ∈ db ++ [{ name, columns, indexes := [] }]) :
      t ∈ db ∨ t = { name, columns, indexes := [] } := by
    simpa using mem
  refine ⟨?_, fun t mem => ?_, fun t mem => ?_, fun t mem t' mem' i here i' here' same => ?_⟩
  · rw [tableNames, List.map_append, List.map_singleton, ← List.concat_eq_append]
    exact valid.tables.concat fresh
  · rcases of mem with mem | rfl
    · exact valid.columns t mem
    · exact nodup
  · rcases of mem with mem | rfl
    · exact valid.indexes t mem
    · exact List.nodup_nil
  · rcases of mem with mem | rfl
    · rcases of mem' with mem' | rfl
      · exact valid.owner t mem t' mem' i here i' here' same
      · exact absurd here' List.not_mem_nil
    · exact absurd here List.not_mem_nil

/-! ### Statements -/

theorem effect_of_exec {s : SchemaStatement} (h : db.exec refused s = some db') :
    db.effect s = some db' := (Option.ite_none_left_eq_some.mp h).2

theorem exec_dropIndex {name : String} (h : db.exec refused (.dropIndex name) = some db') :
    db.hasIndex name = true ∧ db' = db.dropIndexes [name] := by
  have h := effect_of_exec h
  obtain ⟨has, h⟩ := Option.ite_none_right_eq_some.mp h
  refine ⟨has, ?_⟩
  rw [← Option.some.inj h]
  simp [dropIndexes]

theorem exec_dropIndex_eq {name : String} (has : db.hasIndex name = true)
    (accepted : refused db (.dropIndex name) = false) :
    db.exec refused (.dropIndex name) = some (db.dropIndexes [name]) := by
  simp [exec, accepted, effect, has, dropIndexes]

theorem exec_createIndex {name : String} {index : SqlIndex}
    (h : db.exec refused (.createIndex name index) = some db') :
    db.hasIndex index.name = false ∧
      db' = db.modify name fun t => { t with indexes := index :: t.indexes } := by
  have h := effect_of_exec h
  unfold effect at h
  cases found : db.table name with
  | none => simp [found] at h
  | some t =>
    simp only [found] at h
    obtain ⟨none, h⟩ := Option.ite_none_left_eq_some.mp h
    exact ⟨by simpa using (not_or.mp none).1, (Option.some.inj h).symm⟩

theorem exec_addColumn {name : String} {column : String × String}
    (h : db.exec refused (.addColumn name column) = some db') :
    (∃ t, db.table name = some t ∧ column.1 ∉ t.columns.map Prod.fst) ∧
      db' = db.modify name fun t => { t with columns := t.columns ++ [column] } := by
  have h := effect_of_exec h
  unfold effect at h
  cases found : db.table name with
  | none => simp [found] at h
  | some t =>
    simp only [found] at h
    obtain ⟨none, h⟩ := Option.ite_none_left_eq_some.mp h
    exact ⟨⟨t, rfl, none⟩, (Option.some.inj h).symm⟩

theorem exec_dropColumn {name column : String}
    (h : db.exec refused (.dropColumn name column) = some db') :
    db' = db.modify name fun t =>
      { t with columns := t.columns.filter fun c => c.1 ∉ [column] } := by
  have h := effect_of_exec h
  unfold effect at h
  cases found : db.table name with
  | none => simp [found] at h
  | some t =>
    simp only [found] at h
    obtain ⟨none, h⟩ := Option.ite_none_left_eq_some.mp h
    rw [← Option.some.inj h]
    simp

theorem exec_createTable {name : String} {columns : List (String × String)}
    (h : db.exec refused (.createTable name columns) = some db') :
    name ∉ db.tableNames ∧ (columns.map Prod.fst).Nodup ∧
      db' = db ++ [{ name, columns, indexes := [] }] := by
  have h := effect_of_exec h
  obtain ⟨none, h⟩ := Option.ite_none_left_eq_some.mp h
  simp only [not_or, not_not] at none
  exact ⟨none.1, none.2.2, (Option.some.inj h).symm⟩

theorem exec_dropTable {name : String} (h : db.exec refused (.dropTable name) = some db') :
    db' = db.filter fun t => t.name ∉ [name] := by
  have h := effect_of_exec h
  obtain ⟨-, h⟩ := Option.ite_none_right_eq_some.mp h
  rw [← Option.some.inj h]
  simp

/-- Every statement keeps what SQLite guarantees. -/
theorem valid_exec (valid : db.Valid) {s : SchemaStatement}
    (h : db.exec refused s = some db') : db'.Valid := by
  cases s with
  | createTable name columns =>
    obtain ⟨fresh, nodup, rfl⟩ := exec_createTable h
    exact valid_createTable valid fresh nodup
  | createIndex name index =>
    obtain ⟨fresh, rfl⟩ := exec_createIndex h
    exact valid_addIndex valid name fresh
  | dropIndex name =>
    obtain ⟨-, rfl⟩ := exec_dropIndex h
    exact valid_dropIndexes valid [name]
  | addColumn name column =>
    obtain ⟨⟨t, found, fresh⟩, rfl⟩ := exec_addColumn h
    refine @valid_modifyColumns db valid name (fun columns => columns ++ [column]) ?_
    intro t' mem name'
    obtain ⟨mem₀, name₀⟩ := (table_eq_some valid).mp found
    rw [List.inj_on_of_nodup_map valid.tables mem mem₀ (name'.trans name₀.symm), List.map_append,
      List.map_singleton, ← List.concat_eq_append]
    exact (valid.columns t mem₀).concat fresh
  | dropColumn name column =>
    rw [exec_dropColumn h]
    exact @valid_modifyColumns db valid name (fun columns => columns.filter fun c => c.1 ∉ [column])
      fun t mem _ => (valid.columns t mem).sublist (List.Sublist.map _ List.filter_sublist)
  | dropTable name =>
    rw [exec_dropTable h]
    exact valid_filter valid _

theorem run_cons {s : SchemaStatement} {statements : List SchemaStatement} :
    db.run (Catalog.exec refused) (s :: statements) = some db' ↔
      ∃ db₁, db.exec refused s = some db₁ ∧ db₁.run (Catalog.exec refused) statements = some db' := by
  simp [run, Option.bind_eq_some_iff]

theorem run_append {statements statements' : List SchemaStatement} :
    db.run (Catalog.exec refused) (statements ++ statements') = some db' ↔
      ∃ db₁, db.run (Catalog.exec refused) statements = some db₁ ∧
        db₁.run (Catalog.exec refused) statements' = some db' := by
  simp [run, List.foldlM_append, Option.bind_eq_some_iff]

theorem valid_run (valid : db.Valid) {statements : List SchemaStatement}
    (h : db.run (Catalog.exec refused) statements = some db') : db'.Valid := by
  induction statements generalizing db with
  | nil =>
    cases h
    exact valid
  | cons s statements ih =>
    obtain ⟨db₁, first, rest⟩ := run_cons.mp h
    exact ih (valid_exec valid first) rest

/-! ### Groups of statements -/

theorem dropIndexes_nil : db.dropIndexes [] = db := by
  simp [dropIndexes]

theorem dropIndexes_dropIndexes (names names' : List String) :
    (db.dropIndexes names).dropIndexes names' = db.dropIndexes (names ++ names') := by
  simp only [dropIndexes, List.map_map]
  refine List.map_congr_left fun t _ => ?_
  simp only [Function.comp_apply, List.filter_filter, Table.mk.injEq, true_and]
  exact List.filter_congr fun i _ => by simp [Bool.and_comm]

theorem run_dropIndexes {names : List String}
    (h : db.run (Catalog.exec refused) (names.map SchemaStatement.dropIndex) = some db') :
    db' = db.dropIndexes names := by
  induction names generalizing db with
  | nil =>
    rw [dropIndexes_nil]
    exact (Option.some.inj h).symm
  | cons name names ih =>
    obtain ⟨db₁, first, rest⟩ := run_cons.mp h
    rw [ih rest, (exec_dropIndex first).2, dropIndexes_dropIndexes]
    rfl

theorem modify_id (name : String) : (db.modify name fun t => t) = db := by
  simp [modify]

theorem modify_modify {name : String} {f g : Table → Table} (same : ∀ t, (f t).name = t.name) :
    (db.modify name f).modify name g = db.modify name fun t => g (f t) := by
  simp only [modify, List.map_map]
  refine List.map_congr_left fun t _ => ?_
  by_cases eq : t.name = name
  · simp [eq, same]
  · simp [eq]

theorem run_dropColumns {table : String} {names : List String}
    (h : db.run (Catalog.exec refused) (names.map (SchemaStatement.dropColumn table)) = some db') :
    db' = db.modify table fun t =>
      { t with columns := t.columns.filter fun c => c.1 ∉ names } := by
  induction names generalizing db with
  | nil =>
    rw [← Option.some.inj h]
    simp [modify_id]
  | cons name names ih =>
    obtain ⟨db₁, first, rest⟩ := run_cons.mp h
    rw [ih rest, exec_dropColumn first, modify_modify]
    · congr 1
      funext t
      simp only [List.filter_filter, Table.mk.injEq, and_true, true_and]
      exact List.filter_congr fun c _ => by simp [Bool.and_comm]
    · exact fun t => rfl

theorem run_addColumns {table : String} {columns : List (String × String)}
    (h : db.run (Catalog.exec refused) (columns.map (SchemaStatement.addColumn table)) = some db') :
    db' = db.modify table fun t => { t with columns := t.columns ++ columns } := by
  induction columns generalizing db with
  | nil =>
    rw [← Option.some.inj h]
    simp [modify_id]
  | cons column columns ih =>
    obtain ⟨db₁, first, rest⟩ := run_cons.mp h
    rw [ih rest, (exec_addColumn first).2, modify_modify]
    · simp
    · exact fun t => rfl

theorem run_createIndexes {table : String} {indexes : List SqlIndex}
    (h : db.run (Catalog.exec refused) (indexes.map (SchemaStatement.createIndex table)) = some db') :
    db' = db.modify table fun t => { t with indexes := indexes.reverse ++ t.indexes } := by
  induction indexes generalizing db with
  | nil =>
    rw [← Option.some.inj h]
    simp [modify_id]
  | cons index indexes ih =>
    obtain ⟨db₁, first, rest⟩ := run_cons.mp h
    rw [ih rest, (exec_createIndex first).2, modify_modify]
    · simp
    · exact fun t => rfl

theorem run_dropTables {names : List String}
    (h : db.run (Catalog.exec refused) (names.map SchemaStatement.dropTable) = some db') :
    db' = db.filter fun t => t.name ∉ names := by
  induction names generalizing db with
  | nil =>
    rw [← Option.some.inj h]
    simp
  | cons name names ih =>
    obtain ⟨db₁, first, rest⟩ := run_cons.mp h
    rw [ih rest, exec_dropTable first, List.filter_filter]
    exact List.filter_congr fun t _ => by simp [Bool.and_comm]

theorem mem_modify_of_ne {name : String} {f : Table → Table} {t : Table} (mem : t ∈ db)
    (ne : t.name ≠ name) : t ∈ db.modify name f :=
  List.mem_map.mpr ⟨t, mem, if_neg ne⟩

theorem mem_modify {name : String} {f : Table → Table} {t : Table} (mem : t ∈ db)
    (eq : t.name = name) : f t ∈ db.modify name f :=
  List.mem_map.mpr ⟨t, mem, if_pos eq⟩

theorem of_mem_modify {name : String} {f : Table → Table} {t : Table}
    (mem : t ∈ db.modify name f) :
    (t ∈ db ∧ t.name ≠ name) ∨ ∃ t₀ ∈ db, t₀.name = name ∧ t = f t₀ := by
  obtain ⟨t₀, mem₀, rfl⟩ := List.mem_map.mp mem
  by_cases eq : t₀.name = name
  · rw [if_pos eq]
    exact Or.inr ⟨t₀, mem₀, eq, rfl⟩
  · rw [if_neg eq]
    exact Or.inl ⟨mem₀, eq⟩

end Catalog

/-! ## Reading a table -/

/-- The properties that are read from a table. -/
def Table.properties (t : Table) : List PropertySchema :=
  (t.columns.filter fun c => c.1 ≠ idColumn).map readColumn

theorem eraseP_map_readColumn {columns : List (String × String)}
    (nodup : (columns.map Prod.fst).Nodup) :
    (columns.map readColumn).eraseP (fun p => p.name == some idColumn) =
      (columns.filter fun c => c.1 ≠ idColumn).map readColumn := by
  induction columns with
  | nil => rfl
  | cons c columns ih =>
    obtain ⟨fresh, nodup⟩ := List.nodup_cons.mp nodup
    by_cases eq : c.1 = idColumn
    · have rest : (columns.filter fun c => c.1 ≠ idColumn) = columns := by
        apply List.filter_eq_self.mpr
        intro d mem
        have ne : d.1 ≠ idColumn := fun same =>
          fresh (List.mem_map.mpr ⟨d, mem, same.trans eq.symm⟩)
        simpa using ne
      rw [List.map_cons, List.eraseP_cons_of_pos (by simp [readColumn, eq]),
        List.filter_cons_of_neg (by simp [eq]), rest]
    · rw [List.map_cons, List.eraseP_cons_of_neg (by simp [readColumn, eq]), ih nodup,
        List.filter_cons_of_pos (by simp [eq]), List.map_cons]

/-- What `read_col_schema` returns. -/
theorem readColSchema_eq_some {db : Catalog} (valid : db.Valid) {name : String} {s : IsarSchema} :
    readColSchema db name = some s ↔ ∃ t ∈ db, t.name = name ∧ idColumn ∈ t.columns.map Prod.fst ∧
      s = { name, idName := none, embedded := false, properties := t.properties,
            indexes := t.indexes.map readIndex, version := 0 } := by
  unfold readColSchema
  cases found : db.table name with
  | none =>
    refine ⟨fun h => by simp at h, fun ⟨t, mem, eq, _⟩ => ?_⟩
    rw [(Catalog.table_eq_some valid).mpr ⟨mem, eq⟩] at found
    cases found
  | some t =>
    obtain ⟨mem, eq⟩ := (Catalog.table_eq_some valid).mp found
    have hasId : (t.columns.map readColumn).any (fun p => p.name == some idColumn) = true ↔
        idColumn ∈ t.columns.map Prod.fst := by
      simp only [List.any_map, List.any_eq_true, List.mem_map, Function.comp_apply, readColumn,
        beq_iff_eq, Option.some.injEq]
    simp only [Option.map_some, Option.getD_some,
      eraseP_map_readColumn (valid.columns t mem), Option.ite_none_right_eq_some, hasId]
    refine ⟨fun ⟨id, h⟩ => ⟨t, mem, eq, id, (Option.some.inj h).symm⟩, ?_⟩
    rintro ⟨t', mem', eq', id, rfl⟩
    obtain rfl := List.inj_on_of_nodup_map valid.tables mem' mem (eq'.trans eq.symm)
    exact ⟨id, rfl⟩

/-- The table shows the properties and the indexes of the collection. -/
structure Table.Shows (t : Table) (c : IsarSchema) : Prop where
  id : idColumn ∈ t.columns.map Prod.fst
  properties : t.properties.Perm c.named
  indexes : (t.indexes.map readIndex).Perm c.indexes

/-- `read_col_schema` returns the properties and the indexes of the collection. -/
def ReadsBack (db : Catalog) (c : IsarSchema) : Prop :=
  ∃ s, readColSchema db c.name = some s ∧ s.named.Perm c.named ∧ s.indexes.Perm c.indexes

theorem filter_isSome_map_readColumn (columns : List (String × String)) :
    ((columns.map readColumn).filter fun p => p.name.isSome) = columns.map readColumn := by
  apply List.filter_eq_self.mpr
  intro p mem
  obtain ⟨c, -, rfl⟩ := List.mem_map.mp mem
  rfl

theorem readsBack_iff {db : Catalog} (valid : db.Valid) {c : IsarSchema} :
    ReadsBack db c ↔ ∃ t ∈ db, t.name = c.name ∧ t.Shows c := by
  refine ⟨fun ⟨s, read, properties, indexes⟩ => ?_, fun ⟨t, mem, eq, shown⟩ => ?_⟩
  · obtain ⟨t, mem, eq, id, rfl⟩ := (readColSchema_eq_some valid).mp read
    refine ⟨t, mem, eq, id, ?_, indexes⟩
    simpa [named, Table.properties, filter_isSome_map_readColumn] using properties
  · refine ⟨_, (readColSchema_eq_some valid).mpr ⟨t, mem, eq, shown.id, rfl⟩, ?_, shown.indexes⟩
    simpa [named, Table.properties, filter_isSome_map_readColumn] using shown.properties

/-! ## Schemas that can be read back -/

/-- The targets of objects are decoded from the declared types. -/
def Decodes (c : IsarSchema) : Prop :=
  ∀ p ∈ c.properties, p.dataType = .object ∨ p.dataType = .objectList →
    ∀ sqlType, dataTypeSql p = some sqlType → sqlDataType sqlType = (p.dataType, p.collection)

/-- No index is hashed, and no name of an index has an underscore. -/
def PlainIndexes (c : IsarSchema) : Prop :=
  ∀ i ∈ c.indexes, i.hash = false ∧ '_' ∉ i.name.toList

/-- The indexes of the table have the names that are given to indexes of collections, as far as they
can be read back. -/
def Table.Named (t : Table) : Prop :=
  ∀ i ∈ t.indexes, i.name = indexName t.name (lastPiece i.name)

/-- The column of a property is read back as the property. -/
theorem readColumn_of_column {c : IsarSchema} (verified : c.Verified) (decodes : Decodes c)
    {p : PropertySchema} (mem : p ∈ c.properties) {col : String × String}
    (declared : column p = some col) : readColumn col = p ∧ p.name = some col.1 := by
  unfold column at declared
  simp only [Option.bind_eq_bind, Option.bind_eq_some_iff, Option.pure_def] at declared
  obtain ⟨name, eq, sqlType, type, declared⟩ := declared
  cases declared
  have decoded : sqlDataType sqlType = (p.dataType, p.collection) := by
    by_cases object : p.dataType = .object ∨ p.dataType = .objectList
    · exact decodes p mem object sqlType type
    · obtain ⟨scalar, scalarList⟩ := not_or.mp object
      rw [verified.target p mem scalar scalarList]
      exact sqlDataType_dataTypeSql scalar scalarList type
  cases p
  simp_all [readColumn]

/-- The columns of properties are read back as the properties. -/
theorem map_readColumn_of_mapM {c : IsarSchema} (verified : c.Verified) (decodes : Decodes c)
    {properties : List PropertySchema} (sub : ∀ p ∈ properties, p ∈ c.properties)
    {columns : List (String × String)} (declared : properties.mapM column = some columns) :
    columns.map readColumn = properties ∧ ∀ col ∈ columns, col.1 ≠ idColumn := by
  induction properties generalizing columns with
  | nil =>
    cases declared
    exact ⟨rfl, by simp⟩
  | cons p properties ih =>
    simp only [List.mapM_cons, Option.bind_eq_bind, Option.bind_eq_some_iff, Option.pure_def]
      at declared
    obtain ⟨col, first, columns', rest, declared⟩ := declared
    cases declared
    have mem := sub p List.mem_cons_self
    obtain ⟨eq, others⟩ := ih (fun q mem => sub q (List.mem_cons_of_mem _ mem)) rest
    obtain ⟨read, name⟩ := readColumn_of_column verified decodes mem first
    refine ⟨by rw [List.map_cons, read, eq], ?_⟩
    intro col' mem'
    rcases List.mem_cons.mp mem' with rfl | mem'
    · intro same
      rw [same] at name
      exact verified.name p mem idColumn name (by decide)
    · exact others col' mem'

/-- The SQL index of an index. -/
def sqlIndex (table : String) (i : IndexSchema) : SqlIndex :=
  { name := indexName table i.name, unique := i.unique, columns := i.properties }

theorem readIndex_sqlIndex {c : IsarSchema} (plain : PlainIndexes c) {i : IndexSchema}
    (mem : i ∈ c.indexes) : readIndex (sqlIndex c.name i) = i := by
  obtain ⟨hash, name⟩ := plain i mem
  unfold readIndex sqlIndex
  rw [lastPiece_indexName name]
  cases i
  simp_all

theorem Table.Named.names_nodup {t : Table} (good : t.Named)
    (nodup : (t.indexes.map SqlIndex.name).Nodup) :
    ((t.indexes.map readIndex).map IndexSchema.name).Nodup := by
  have eq : t.indexes.map SqlIndex.name =
      ((t.indexes.map readIndex).map IndexSchema.name).map (indexName t.name) := by
    simp only [List.map_map]
    exact List.map_congr_left fun i mem => good i mem
  rw [eq] at nodup
  exact nodup.of_map

/-! ## Updating a table -/

section
variable {refused : Catalog → SchemaStatement → Bool} {db db' : Catalog} {c : IsarSchema}
  {statements : List SchemaStatement}

/-- The table that an update makes of a table. -/
def Table.updated (table : String) (changes : Changes) (columns : List (String × String))
    (t : Table) : Table :=
  { t with
    columns := (t.columns.filter fun c => c.1 ∉ changes.dropProperties) ++ columns
    indexes := (changes.addIndexes.map (sqlIndex table)).reverse ++ t.indexes }

/-- What an update does to the catalog. -/
theorem run_updateTable (valid : db.Valid) (plan : updateTable db c = some statements)
    (run : db.run (Catalog.exec refused) statements = some db') :
    ∃ existing columns, readColSchema db c.name = some existing ∧
      (c.findChanges existing).addProperties.mapM column = some columns ∧ db'.Valid ∧
      db' = (db.dropIndexes ((c.findChanges existing).dropIndexes.map (indexName c.name))).modify
        c.name (Table.updated c.name (c.findChanges existing) columns) := by
  unfold updateTable at plan
  simp only [Option.bind_eq_bind, Option.bind_eq_some_iff, Option.pure_def,
    Option.some.injEq] at plan
  obtain ⟨existing, read, columns, declared, rfl⟩ := plan
  obtain ⟨db₁, dropIndexes, run⟩ := Catalog.run_append.mp run
  obtain ⟨db₂, dropColumns, run⟩ := Catalog.run_append.mp run
  obtain ⟨db₃, addColumns, createIndexes⟩ := Catalog.run_append.mp run
  have drops : (c.findChanges existing).dropIndexes.map (dropIndexSql c.name) =
      ((c.findChanges existing).dropIndexes.map (indexName c.name)).map
        SchemaStatement.dropIndex := by
    rw [List.map_map]
    rfl
  have creates : (c.findChanges existing).addIndexes.map (createIndexSql c.name) =
      ((c.findChanges existing).addIndexes.map (sqlIndex c.name)).map
        (SchemaStatement.createIndex c.name) := by
    rw [List.map_map]
    rfl
  rw [drops] at dropIndexes
  rw [creates] at createIndexes
  have valid' := Catalog.valid_run valid (Catalog.run_append.mpr ⟨_, dropIndexes,
    Catalog.run_append.mpr ⟨_, dropColumns, Catalog.run_append.mpr ⟨_, addColumns, createIndexes⟩⟩⟩)
  obtain rfl := Catalog.run_dropIndexes dropIndexes
  obtain rfl := Catalog.run_dropColumns dropColumns
  obtain rfl := Catalog.run_addColumns addColumns
  obtain rfl := Catalog.run_createIndexes createIndexes
  refine ⟨existing, columns, read, declared, valid', ?_⟩
  rw [Catalog.modify_modify, Catalog.modify_modify]
  · rfl
  · exact fun t => rfl
  · exact fun t => rfl

/-- An update in a catalog whose indexes have the names they should have changes no other table. -/
theorem dropIndexes_of_ne (valid : db.Valid) {t₀ : Table} (mem₀ : t₀ ∈ db) (name : t₀.name = c.name)
    (good : t₀.Named) {drops : List String}
    (sub : ∀ x ∈ drops, x ∈ (t₀.indexes.map readIndex).map IndexSchema.name) {t : Table}
    (mem : t ∈ db) (ne : t.name ≠ c.name) :
    (t.indexes.filter fun i => i.name ∉ drops.map (indexName c.name)) = t.indexes := by
  apply List.filter_eq_self.mpr
  intro i here
  rw [decide_eq_true_iff]
  intro dropped
  obtain ⟨x, drop, same⟩ := List.mem_map.mp dropped
  have there := sub x drop
  rw [List.map_map] at there
  obtain ⟨i₀, here₀, rfl⟩ := List.mem_map.mp there
  have full : i₀.name = i.name := by
    rw [good i₀ here₀, name]
    exact same
  exact ne ((valid.owner t mem t₀ mem₀ i here i₀ here₀ full.symm).trans name)

theorem dropProperties_sub (schema old : IsarSchema) :
    ∀ x ∈ (schema.findChanges old).dropProperties, some x ∈ old.named.map PropertySchema.name := by
  intro x mem
  have mem := List.mem_map_of_mem (f := some) mem
  rw [map_dropProperties, KeyedDiff.mem_dropped] at mem
  obtain ⟨p, there, -, same⟩ := mem
  exact same ▸ List.mem_map_of_mem there

end

end IsarPlus.Sqlite
