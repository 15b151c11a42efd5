import IsarPlus.Sqlite.Details
import IsarPlus.Sqlite.Proofs.MigrationRuns
import Mathlib

/-!
# The order of columns

`SELECT *` has the columns in the order of the table, and `to_json` takes them in the order of the
properties. The details of a change report every value under its own name as long as the two orders
are the same, which a migration can end.
-/

namespace IsarPlus.Sqlite
open Scalar Sql OrderedStore

/-! ## Reading one column -/

/-- The JSON of a value in a column of a type. -/
def columnJson (casts : Casts) (codecs : Codecs) (t : DataType) (v : Value) : Json :=
  SQLiteStatement.propertyJson codecs ⟨casts, [v]⟩ { name := "", idName := none, properties := [] }
    t 0

theorem propertyJson_eq (codecs : Codecs) (stmt : SQLiteStatement) (c : SQLiteCollection)
    (t : DataType) (index : UInt32) :
    stmt.propertyJson codecs c t index =
      columnJson stmt.casts codecs t (stmt.column index) := by
  cases t <;> rfl

/-- Every type has two values that are told apart. -/
theorem exists_columnJson_ne (casts : Casts) {codecs : Codecs} {s : List Char} {json : Json}
    (parses : codecs.fromStr s = some json) (there : json.isNull = false) (t : DataType) :
    ∃ v v', columnJson casts codecs t v ≠ columnJson casts codecs t v' := by
  have text : ((codecs.fromStr s).getD .null).isNull = false := by
    rw [parses]
    exact there
  cases t with
  | bool => exact ⟨.integer 0, .integer 1, fun same => Bool.false_ne_true (Json.bool.inj same)⟩
  | byte => exact ⟨.integer 0, .integer 1, nofun⟩
  | int => exact ⟨.integer 0, .integer 1, nofun⟩
  | long => exact ⟨.integer 0, .integer 1, nofun⟩
  | float =>
    have null : isFinite F64.nan.toF32.toF64 = false := by decide
    have zero : isFinite (F64.toF32 ⟨0⟩).toF64 = true := by decide
    refine ⟨.null, .real ⟨0⟩, fun same => ?_⟩
    have same : (fromF64 F64.nan.toF32.toF64).getD .null =
        (fromF64 (F64.toF32 ⟨0⟩).toF64).getD .null := same
    rw [fromF64, fromF64, if_pos zero, if_neg (by rw [null]; exact Bool.false_ne_true)] at same
    cases same
  | double => exact ⟨.null, .real ⟨0⟩, nofun⟩
  | string => exact ⟨.null, .text [], nofun⟩
  | byteList => exact ⟨.null, .blob [], nofun⟩
  | _ => exact ⟨.null, .text s, fun same => by
      have : Json.isNull .null = false := (congrArg Json.isNull same).trans text
      cases this⟩

/-! ## The map of a row -/

section
variable (codecs : Codecs) (stmt : SQLiteStatement) (c : SQLiteCollection)

theorem find_insertProperty (result : SortedMap String Json) (property : SQLiteProperty × Nat)
    (name : String) :
    (stmt.insertProperty codecs c result property).find name =
      if name = property.1.name then
        some (stmt.propertyJson codecs c property.1.dataType (UInt32.ofNat property.2 + 1))
      else result.find name :=
  SortedMap.find_insert _ _ _ _

theorem find_foldl_of_notMem {properties : List (SQLiteProperty × Nat)} {name : String}
    (absent : name ∉ properties.map fun p => p.1.name) (result : SortedMap String Json) :
    (properties.foldl (stmt.insertProperty codecs c) result).find name = result.find name := by
  induction properties generalizing result with
  | nil => rfl
  | cons p properties ih =>
    rw [List.map_cons, List.mem_cons, not_or] at absent
    rw [List.foldl_cons, ih absent.2, find_insertProperty, if_neg absent.1]

/-- By induction on the properties: the last insertion under a name stays, and there is only one. -/
theorem find_foldl_of_mem {properties : List (SQLiteProperty × Nat)}
    (nodup : (properties.map fun p => p.1.name).Nodup) {p : SQLiteProperty × Nat}
    (mem : p ∈ properties) (result : SortedMap String Json) :
    (properties.foldl (stmt.insertProperty codecs c) result).find p.1.name =
      some (stmt.propertyJson codecs c p.1.dataType (UInt32.ofNat p.2 + 1)) := by
  induction properties generalizing result with
  | nil => cases mem
  | cons q properties ih =>
    rw [List.map_cons, List.nodup_cons] at nodup
    rw [List.foldl_cons]
    rcases List.mem_cons.mp mem with rfl | mem
    · rw [find_foldl_of_notMem codecs stmt c nodup.1, find_insertProperty, if_pos rfl]
    · exact ih nodup.2 mem _

/-- The map has the value of the column at the place of a property. -/
theorem find_jsonMap (nodup : (c.properties.map SQLiteProperty.name).Nodup) {p : SQLiteProperty}
    {i : Nat} (here : c.properties[i]? = some p) :
    (stmt.jsonMap codecs c).find p.name =
      some (columnJson stmt.casts codecs p.dataType (stmt.column (UInt32.ofNat i + 1))) := by
  have names : (c.properties.zipIdx.map fun p => p.1.name) =
      c.properties.map SQLiteProperty.name := by
    show c.properties.zipIdx.map (SQLiteProperty.name ∘ Prod.fst) = _
    rw [← List.map_map, List.zipIdx_map_fst]
  have mem : (p, i) ∈ c.properties.zipIdx := List.mem_zipIdx_iff_getElem?.mpr here
  rw [← propertyJson_eq codecs stmt c]
  exact find_foldl_of_mem codecs stmt c (names ▸ nodup) mem _

end

theorem lookup_entries (map : SortedMap String Json) (name : String) :
    map.entries.lookup name = map.find name := by
  obtain ⟨entries, sorted⟩ := map
  show entries.lookup name = (entries.find? fun e => e.1 = name).map Prod.snd
  clear sorted
  induction entries with
  | nil => rfl
  | cons e entries ih =>
    obtain ⟨key, value⟩ := e
    by_cases same : name = key
    · simp [same]
    · rw [lookup_cons_of_ne same, ih, List.find?_cons_of_neg (by simpa using Ne.symm same)]

namespace DetailedCollection

variable (w : DetailedCollection)

/-- What details have to say of a column. -/
def columnJson (p : SQLiteProperty) (row : Row) : Json :=
  Sqlite.columnJson w.casts w.codecs p.dataType (row p.name)

/-- The JSON has every column of the row under its name. -/
def Shows (json : Json) (row : Row) : Prop :=
  ∀ p ∈ w.collection.properties,
    (Formats.jsonFields json).lookup p.name = some (w.columnJson p row)

/-- The column that `to_json` reads for a property is the column of the property. -/
def Aligned : Prop :=
  ∀ i p, w.collection.properties[i]? = some p →
    (w.table.columns[(UInt32.ofNat i + 1).toNat]?).map Prod.fst = some p.name

/-- The properties have names of their own, and none has that of the id. -/
structure Distinct : Prop where
  nodup : (w.collection.properties.map SQLiteProperty.name).Nodup
  id : ∀ p ∈ w.collection.properties, p.name ≠ idColumn

theorem column_statement (id : Int64) (row : Row) (index : UInt32) :
    (w.statement id row).column index =
      match (w.table.columns[index.toNat]?).map Prod.fst with
      | some name => if name = idColumn then .integer id else row name
      | none => .null := by
  unfold SQLiteStatement.column statement Table.selectAll
  rw [List.getElem?_map]
  cases w.table.columns[index.toNat]? <;> rfl

theorem lookup_rowJson (distinct : w.Distinct) {p : SQLiteProperty} {i : Nat}
    (here : w.collection.properties[i]? = some p) (id : Int64) (row : Row) :
    (Formats.jsonFields (w.rowJson id row)).lookup p.name =
      some (Sqlite.columnJson w.casts w.codecs p.dataType
        ((w.statement id row).column (UInt32.ofNat i + 1))) := by
  show ((w.statement id row).jsonMap w.codecs w.collection).entries.lookup p.name = _
  rw [lookup_entries, find_jsonMap _ _ _ distinct.nodup here]
  rfl

/-- The rows are reported under the names of their columns exactly where the orders agree. Where
they do not, the value that is read does not depend on the column of the property. -/
theorem shows_iff (distinct : w.Distinct) {s : List Char} {json : Json}
    (parses : w.codecs.fromStr s = some json) (there : json.isNull = false) :
    (∀ id row, w.Shows (w.rowJson id row) row) ↔ w.Aligned := by
  refine ⟨fun shows i p here => ?_, fun aligned id row p mem => ?_⟩
  · by_contra other
    obtain ⟨v, v', ne⟩ := exists_columnJson_ne w.casts parses there p.dataType
    have read (v : Value) : some (Sqlite.columnJson w.casts w.codecs p.dataType
        ((w.statement 0 fun name => if name = p.name then v else .null).column
          (UInt32.ofNat i + 1))) = some (Sqlite.columnJson w.casts w.codecs p.dataType v) := by
      rw [← w.lookup_rowJson distinct here]
      have shown := shows 0 (fun name => if name = p.name then v else .null) p
        (List.mem_of_getElem? here)
      rw [shown, columnJson, if_pos rfl]
    have same : (w.statement 0 fun name => if name = p.name then v else .null).column
          (UInt32.ofNat i + 1) =
        (w.statement 0 fun name => if name = p.name then v' else .null).column
          (UInt32.ofNat i + 1) := by
      rw [column_statement, column_statement]
      cases column : (w.table.columns[(UInt32.ofNat i + 1).toNat]?).map Prod.fst with
      | none => rfl
      | some name =>
        have differs : name ≠ p.name := by
          intro same
          exact other (column.trans (congrArg some same))
        simp only [if_neg differs]
    have first := read v
    rw [same, read v'] at first
    exact ne (Option.some.inj first).symm
  · obtain ⟨i, here⟩ := List.mem_iff_getElem?.mp mem
    rw [w.lookup_rowJson distinct here, column_statement, aligned i p here]
    simp only [if_neg (distinct.id p mem)]
    rfl

/-! ## Details -/

/-- The text of a column in the change of a field. -/
def fieldText (p : SQLiteProperty) (row : Row) : String :=
  String.ofList (w.formats.processJsonFieldValue p.name (w.columnJson p row))

/-- The changes of a detail are about the columns of the row before and after it. -/
structure Reported (d : ChangeDetail) (before after : Option Row) : Prop where
  inserted : d.changeType = .insert ↔ before = none
  deleted : d.changeType = .delete ↔ after = none
  fields : ∀ change ∈ d.fieldChanges, ∀ p ∈ w.collection.properties, change.fieldName = p.name →
    change.oldValue = before.map (w.fieldText p) ∧ change.newValue = after.map (w.fieldText p)

variable {w}

theorem lookup_of_mem {id : Int64} {row : Row} {entry : String × Json}
    (mem : entry ∈ Formats.jsonFields (w.rowJson id row)) :
    (Formats.jsonFields (w.rowJson id row)).lookup entry.1 = some entry.2 := by
  show ((w.statement id row).jsonMap w.codecs w.collection).entries.lookup entry.1 = some entry.2
  rw [lookup_entries]
  exact SortedMap.mem_entries.mp mem

/-- What `ChangeDetector` finds in the JSON of rows. -/
theorem reported_of_detect {id : Int64} (shows : ∀ row, w.Shows (w.rowJson id row) row)
    {before after : Option Row} {d : ChangeDetail}
    (h : w.detect id (before.map (w.rowJson id)) (after.map (w.rowJson id)) = some (some d)) :
    d.objectId = id ∧ w.Reported d before after := by
  unfold detect Formats.detectChangesFromJson at h
  -- a field of a row that is there alone is an entry of its JSON
  have alone {row : Row} {entry : String × Json} {p : SQLiteProperty}
      (mem : entry ∈ Formats.jsonFields (w.rowJson id row)) (known : p ∈ w.collection.properties)
      (name : entry.1 = p.name) :
      String.ofList (w.formats.processJsonFieldValue entry.1 entry.2) = w.fieldText p row := by
    have value := lookup_of_mem mem
    rw [name, shows row p known] at value
    rw [fieldText, Option.some.inj value, name]
  cases before with
  | none =>
    cases after with
    | none => cases h
    | some new =>
      simp only [Option.map_none, Option.map_some, Option.map_eq_some_iff, Option.some.injEq] at h
      obtain ⟨document, -, rfl⟩ := h
      refine ⟨rfl, by simp [Formats.changeDetail], by simp [Formats.changeDetail], ?_⟩
      intro change mem p known name
      obtain ⟨entry, there, rfl⟩ := List.mem_map.mp mem
      exact ⟨rfl, congrArg some (alone there known name)⟩
  | some old =>
    cases after with
    | none =>
      simp only [Option.map_none, Option.map_some, Option.map_eq_some_iff, Option.some.injEq] at h
      obtain ⟨document, -, rfl⟩ := h
      refine ⟨rfl, by simp [Formats.changeDetail], by simp [Formats.changeDetail], ?_⟩
      intro change mem p known name
      obtain ⟨entry, there, rfl⟩ := List.mem_map.mp mem
      exact ⟨congrArg some (alone there known name), rfl⟩
    | some new =>
      simp only [Option.map_some] at h
      split at h
      · cases h
      · simp only [Option.map_eq_some_iff, Option.some.injEq] at h
        obtain ⟨document, -, rfl⟩ := h
        refine ⟨rfl, by simp [Formats.changeDetail], by simp [Formats.changeDetail], ?_⟩
        intro change mem p known name
        obtain ⟨field, -, changed⟩ := List.mem_filterMap.mp mem
        simp only [Option.ite_none_right_eq_some] at changed
        obtain ⟨-, changed⟩ := changed
        cases changed
        have name : field = p.name := name
        subst name
        simp only [Formats.fieldChange, shows old p known, shows new p known]
        exact ⟨rfl, rfl⟩

end DetailedCollection

/-! ## Operations -/

/-- The id is read from the first column. -/
def Table.IdFirst (t : Table) : Prop := (t.columns.map Prod.fst).head? = some idColumn

/-- The rows as they are before each of the batches. -/
def beforeBatches (unique : Row → Row → Bool) (rows : TableRows Row) :
    List (TableRows Row) → List (TableRows Row)
  | [] => []
  | batch :: batches => rows :: beforeBatches unique (rows.insertRows unique batch).1 batches

/-- The tables in which an operation finds the old rows, and those in which it finds the new. -/
def DetailedOperation.tables (unique : Row → Row → Bool) (rows : TableRows Row) :
    DetailedOperation → List (TableRows Row) × List (TableRows Row)
  | .insert batches => (beforeBatches unique rows batches,
      [batches.foldl (fun rows batch => (rows.insertRows unique batch).1) rows])
  | .update query offset limit set =>
    ([rows], ((query.update unique rows offset limit set).map Prod.fst).toList)
  | .delete _ _ _ => ([rows], [])

namespace DetailedCollection

variable {w : DetailedCollection} {unique : Row → Row → Bool}

/-- A row that is there is one with the id in one of the tables. -/
def Found (tables : List (TableRows Row)) (id : Int64) (row : Option Row) : Prop :=
  ∀ r, row = some r → ∃ rows ∈ tables, (id, r) ∈ rows

/-- A detail reports columns of a row that the operation has found before and after it. -/
def Names (w : DetailedCollection) (tables : List (TableRows Row) × List (TableRows Row))
    (d : ChangeDetail) : Prop :=
  ∃ before after, Found tables.1 d.objectId before ∧ Found tables.2 d.objectId after ∧
    w.Reported d before after

theorem mem_of_select {rows : TableRows Row} {id : Int64} {json : Json}
    (h : w.select rows id = some json) : ∃ row, (id, row) ∈ rows ∧ json = w.rowJson id row := by
  obtain ⟨row, found, rfl⟩ := Option.map_eq_some_iff.mp h
  obtain ⟨before, behind, rfl, -⟩ := List.lookup_eq_some_iff.mp found
  exact ⟨row, by simp, rfl⟩

/-- The states that an insert keeps are those of rows it has found. -/
def Inserted.Sound (w : DetailedCollection) (tables : List (TableRows Row))
    (inserted : Inserted) : Prop :=
  ∀ id json, inserted.beforeStates id = some json →
    ∃ rows ∈ tables, ∃ row, (id, row) ∈ rows ∧ json = w.rowJson id row

theorem Inserted.Sound.save {tables : List (TableRows Row)} {inserted : Inserted}
    (sound : inserted.Sound w tables) {rows : TableRows Row} (mem : rows ∈ tables) (id : Int64) :
    (w.save rows inserted id).Sound w tables := by
  intro id' json h
  unfold DetailedCollection.save at h
  cases found : w.select rows id with
  | none =>
    rw [found] at h
    exact sound id' json h
  | some json' =>
    rw [found] at h
    by_cases same : id' = id
    · subst same
      have eq : json' = json := by simpa using h
      obtain ⟨row, there, shown⟩ := mem_of_select found
      exact ⟨rows, mem, row, there, eq ▸ shown⟩
    · exact sound id' json (by simpa [same] using h)

/-- By induction on the batches: their rows are looked for before they are executed. -/
theorem sound_saveBatches {tables : List (TableRows Row)} {batches : List (TableRows Row)}
    {rows : TableRows Row} {inserted : Inserted}
    (sub : ∀ rows' ∈ beforeBatches unique rows batches, rows' ∈ tables)
    (sound : inserted.Sound w tables) :
    (w.saveBatches unique rows inserted batches).2.Sound w tables ∧
      (w.saveBatches unique rows inserted batches).1 =
        batches.foldl (fun rows batch => (rows.insertRows unique batch).1) rows := by
  induction batches generalizing rows inserted with
  | nil => exact ⟨sound, rfl⟩
  | cons batch batches ih =>
    obtain ⟨here, later⟩ := List.forall_mem_cons.mp sub
    have saved (ids : List Int64) (inserted : Inserted) (sound : inserted.Sound w tables) :
        (ids.foldl (w.save rows) inserted).Sound w tables := by
      induction ids generalizing inserted with
      | nil => exact sound
      | cons id ids ih => exact ih _ (sound.save here id)
    exact ih later (saved batch.ids inserted sound)

theorem exists_of_reduceOption {α β : Type} {f : α → Option (Option β)} {l : List α} {r : List β}
    (h : (l.mapM f).map List.reduceOption = some r) {b : β} (mem : b ∈ r) :
    ∃ a ∈ l, f a = some (some b) := by
  obtain ⟨found, all, rfl⟩ := Option.map_eq_some_iff.mp h
  exact mem_of_mapM all _ (List.reduceOption_mem_iff.mp mem)

theorem mem_of_beforeData (idFirst : w.table.IdFirst) {rows : TableRows Row} {ids : List Int64}
    {before : Int64 × Json} (mem : before ∈ w.beforeData rows ids) :
    ∃ row, (before.1, row) ∈ rows ∧ before.2 = w.rowJson before.1 row := by
  obtain ⟨⟨id, row⟩, there, rfl⟩ := List.mem_map.mp mem
  have read : (Reader.row (w.statement id row) w.collection).readId = id := by
    show (w.statement id row).getLong 0 = id
    have column : (w.statement id row).column 0 = .integer id := by
      have first : (w.table.columns[(0 : UInt32).toNat]?).map Prod.fst = some idColumn := by
        rw [← List.getElem?_map]
        exact (List.head?_eq_getElem? (l := _)).symm.trans idFirst
      rw [column_statement, first]
      rfl
    rw [SQLiteStatement.getLong, column]
  refine ⟨row, ?_, ?_⟩
  · rw [read]
    exact (List.mem_filter.mp there).1
  · show w.rowJson id row = _
    rw [read]

theorem names_of_details (idFirst : w.table.IdFirst)
    (shows : ∀ id row, w.Shows (w.rowJson id row) row) {rows : TableRows Row}
    {operation : DetailedOperation} {details : List ChangeDetail}
    (h : w.details unique rows operation = some details) {d : ChangeDetail} (mem : d ∈ details) :
    w.Names (operation.tables unique rows) d := by
  cases operation with
  | insert batches =>
    have start : Inserted.Sound w (beforeBatches unique rows batches) ⟨[], fun _ => none⟩ := nofun
    obtain ⟨sound, final⟩ := sound_saveBatches (fun _ mem => mem) start
    obtain ⟨id, -, found⟩ := exists_of_reduceOption h mem
    unfold insertDetail at found
    split at found
    · rename_i json selected
      obtain ⟨new, there, rfl⟩ := mem_of_select selected
      rw [final] at there
      cases state : (w.saveBatches unique rows ⟨[], fun _ => none⟩ batches).2.beforeStates id with
      | none =>
        rw [state] at found
        obtain ⟨rfl, reported⟩ :=
          @reported_of_detect _ _ (shows id) none (some new) _ found
        refine ⟨none, some new, nofun, ?_, reported⟩
        intro r eq
        cases eq
        exact ⟨_, List.mem_singleton_self _, there⟩
      | some json =>
        obtain ⟨table, memT, old, thereOld, rfl⟩ := sound id json state
        rw [state] at found
        obtain ⟨rfl, reported⟩ :=
          @reported_of_detect _ _ (shows id) (some old) (some new) _ found
        refine ⟨some old, some new, ?_, ?_, reported⟩
        · intro r eq
          cases eq
          exact ⟨table, memT, thereOld⟩
        · intro r eq
          cases eq
          exact ⟨_, List.mem_singleton_self _, there⟩
    · cases found
  | update query offset limit set =>
    obtain ⟨⟨after, changes⟩, updated, h⟩ := Option.bind_eq_some_iff.mp h
    obtain ⟨before, memB, found⟩ := exists_of_reduceOption h mem
    obtain ⟨old, thereOld, shown⟩ := mem_of_beforeData idFirst memB
    unfold updateDetail at found
    split at found
    · rename_i json selected
      obtain ⟨new, there, rfl⟩ := mem_of_select selected
      rw [shown] at found
      obtain ⟨same, reported⟩ :=
        @reported_of_detect _ _ (shows _) (some old) (some new) _ found
      refine ⟨some old, some new, ?_, ?_, reported⟩
      · intro r eq
        cases eq
        exact ⟨rows, List.mem_singleton_self _, same ▸ thereOld⟩
      · intro r eq
        cases eq
        refine ⟨after, ?_, same ▸ there⟩
        simp [DetailedOperation.tables, updated]
    · cases found
  | delete query offset limit =>
    obtain ⟨before, memB, found⟩ := exists_of_reduceOption h mem
    obtain ⟨old, thereOld, shown⟩ := mem_of_beforeData idFirst memB
    rw [shown] at found
    obtain ⟨same, reported⟩ :=
      @reported_of_detect _ _ (shows _) (some old) none _ found
    refine ⟨some old, none, ?_, nofun, reported⟩
    intro r eq
    cases eq
    exact ⟨rows, List.mem_singleton_self _, same ▸ thereOld⟩

end DetailedCollection

end IsarPlus.Sqlite
