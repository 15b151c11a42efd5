import IsarPlus.Core.SchemaChanges
import IsarPlus.Native.SchemaManager
import Mathlib

/-!
# What a failed migration leaves

Every collection is migrated in a transaction of its own, and what an error at a later one finds
committed stays.
-/

namespace IsarPlus.Native
open ByteBuffer OrderedStore

/-! ## The stored schemas -/

theorem Storage.find?_schemas (s : Storage) (name : String) :
    (s.schemas.find? fun c => c.name == name) = s.info.find name := by
  have agree (l : List (String × IsarSchema)) (named : ∀ e ∈ l, e.2.name = e.1) :
      ((l.map Prod.snd).find? fun c => c.name == name) =
        (l.find? fun e => decide (e.1 = name)).map Prod.snd := by
    induction l with
    | nil => rfl
    | cons e l ih =>
      have rest := ih fun e mem => named e (List.mem_cons_of_mem _ mem)
      have own := named e List.mem_cons_self
      by_cases same : e.1 = name
      · simp [own, same]
      · simp [own, same, rest]
  exact agree s.info.entries s.named

/-- The properties with which a schema is stored. -/
def keptProperties (existing : Option IsarSchema) (schema : IsarSchema) : List PropertySchema :=
  match existing with
  | some existing => mergedProperties schema existing
  | none => schema.properties

/-- The databases of indexes that a turn drops. -/
def droppedDbs (existing : Option IsarSchema) (schema : IsarSchema) : List Db :=
  match existing with
  | some existing => (schema.findChanges existing).dropIndexes.map (indexDb schema.name)
  | none => []

/-! ## One turn -/

/-- Nothing but these indexes is lost. -/
structure Leaves (dropped : List Db) (s s' : Storage) : Prop where
  info : s'.info = s.info
  objects : ∀ db, s'.objects db = s.objects db
  entries : ∀ db, s'.entries db = if db ∈ dropped then .empty else s.entries db

section
variable {refused : TxnFaults} {s s' s₁ : Storage}

theorem Leaves.refl (s : Storage) : Leaves [] s s := ⟨rfl, fun _ => rfl, fun _ => by simp⟩

theorem Leaves.trans {dropped dropped' : List Db} (first : Leaves dropped s s₁)
    (second : Leaves dropped' s₁ s') : Leaves (dropped ++ dropped') s s' := by
  refine ⟨second.info.trans first.info, fun db => (second.objects db).trans (first.objects db),
    fun db => ?_⟩
  rw [second.entries, first.entries]
  by_cases late : db ∈ dropped'
  · simp [late]
  · simp [late]

theorem objects_openPrimary (s : Storage) (db db' : Db) :
    (s.openPrimary db).objects db' = s.objects db' := by
  by_cases same : db' = db
  · subst same
    simp [Storage.objects, Storage.openPrimary]
  · simp [Storage.objects, Storage.openPrimary, same]

theorem entries_openIndex (s : Storage) (db db' : Db) :
    (s.openIndex db).entries db' = s.entries db' := by
  by_cases same : db' = db
  · subst same
    simp [Storage.entries, Storage.openIndex]
  · simp [Storage.entries, Storage.openIndex, same]

theorem entries_dropIndex (s : Storage) (db db' : Db) :
    (s.dropIndex db).entries db' = if db' = db then .empty else s.entries db' := by
  by_cases same : db' = db
  · subst same
    simp [Storage.entries, Storage.dropIndex]
  · simp [Storage.entries, Storage.dropIndex, same]

theorem leaves_openDb {db : Db} (h : openDb refused s db = .ok s') : Leaves [] s s' := by
  obtain ⟨_, -, h⟩ := bind_eq_ok.mp h
  obtain rfl := pure_eq_ok.mp h
  exact ⟨rfl, objects_openPrimary s db, fun _ => by simp [Storage.entries, Storage.openPrimary]⟩

theorem leaves_openIndexDb {colName indexName : String} {db : Db}
    (h : openIndexDb refused s colName indexName = .ok (s', db)) :
    Leaves [] s s' ∧ s' = s.openIndex (indexDb colName indexName) := by
  obtain ⟨_, -, h⟩ := bind_eq_ok.mp h
  cases pure_eq_ok.mp h
  exact ⟨⟨rfl, fun _ => rfl, fun db' => by simp [entries_openIndex]⟩, rfl⟩

theorem leaves_dropIndexDb {colName indexName : String}
    (h : dropIndexDb refused s colName indexName = .ok s') :
    Leaves [indexDb colName indexName] s s' := by
  obtain ⟨⟨s₁, db⟩, opened, h⟩ := bind_eq_ok.mp h
  obtain ⟨_, -, h⟩ := bind_eq_ok.mp h
  obtain rfl := pure_eq_ok.mp h
  obtain ⟨_, -, named⟩ := bind_eq_ok.mp opened
  cases pure_eq_ok.mp named
  refine ⟨rfl, fun _ => rfl, fun db' => ?_⟩
  rw [entries_dropIndex, entries_openIndex]
  simp

theorem leaves_dropIndexes {colName : String} {names : List String}
    (h : names.foldlM (fun s index => dropIndexDb refused s colName index) s = .ok s') :
    Leaves (names.map (indexDb colName)) s s' := by
  induction names generalizing s with
  | nil =>
    obtain rfl := pure_eq_ok.mp h
    exact Leaves.refl _
  | cons name names ih =>
    obtain ⟨s₁, first, rest⟩ := bind_eq_ok.mp h
    exact (leaves_dropIndexDb first).trans (ih rest)

theorem leaves_migrateProperties {existingSchemas : List IsarSchema} {schema : IsarSchema}
    {merged : List PropertySchema}
    (h : migrateProperties refused existingSchemas s schema = .ok (s', merged)) :
    Leaves (droppedDbs (existingSchemas.find? fun c => c.name == schema.name) schema) s s' ∧
      merged = keptProperties (existingSchemas.find? fun c => c.name == schema.name) schema := by
  unfold migrateProperties at h
  cases found : existingSchemas.find? fun c => c.name == schema.name with
  | none =>
    rw [found] at h
    cases pure_eq_ok.mp h
    exact ⟨Leaves.refl s, rfl⟩
  | some existing =>
    rw [found] at h
    have h : migrateCollection refused s schema existing = .ok (s', merged) := h
    unfold migrateCollection at h
    by_cases old : existing.version ≠ isarFileVersion
    · simp [old] at h
    · rw [if_neg old] at h
      obtain ⟨s₁, drops, h⟩ := bind_eq_ok.mp h
      cases pure_eq_ok.mp h
      exact ⟨leaves_dropIndexes drops, rfl⟩

theorem leaves_openCollectionDb {schema : IsarSchema} {db : Option Db}
    (h : openCollectionDb refused s schema = .ok (s', db)) : Leaves [] s s' := by
  unfold openCollectionDb at h
  by_cases embedded : schema.embedded = true
  · rw [if_pos embedded] at h
    cases pure_eq_ok.mp h
    exact Leaves.refl _
  · rw [if_neg embedded] at h
    obtain ⟨s₁, opened, eq⟩ := map_eq_ok.mp h
    cases eq
    exact leaves_openDb opened

theorem leaves_openIndexes {colName : String} {properties : List (String × NativeProperty)}
    {indexes : List IndexSchema} {opened : List NativeIndex}
    (h : openIndexes refused colName properties s indexes = .ok (s', opened)) :
    Leaves [] s s' := by
  induction indexes generalizing s opened with
  | nil =>
    cases pure_eq_ok.mp h
    exact Leaves.refl _
  | cons index indexes ih =>
    obtain ⟨⟨s₁, db⟩, first, h⟩ := bind_eq_ok.mp h
    obtain ⟨_, -, h⟩ := bind_eq_ok.mp h
    obtain ⟨⟨s₂, rest⟩, others, h⟩ := bind_eq_ok.mp h
    cases pure_eq_ok.mp h
    exact (leaves_openIndexDb first).1.trans (ih others)

/-- What a turn of the loop commits. -/
structure Turn (existing : Option IsarSchema) (schema : IsarSchema) (s s' : Storage) : Prop where
  info : s'.info =
    s.info.insert schema.name (savedSchema schema (keptProperties existing schema))
  objects : ∀ db, s'.objects db = s.objects db
  entries : ∀ db, s'.entries db =
    if db ∈ droppedDbs existing schema then .empty else s.entries db

theorem turn_of_migrateSchema {existingSchemas : List IsarSchema} {schemaNames : List String}
    {collectionIndex : Nat} {schema : IsarSchema} {col : NativeCollection × Int64}
    (h : migrateSchema refused existingSchemas schemaNames collectionIndex s schema =
      .ok (s', col)) :
    Turn (existingSchemas.find? fun c => c.name == schema.name) schema s s' := by
  obtain ⟨_, -, h⟩ := bind_eq_ok.mp h
  obtain ⟨⟨s₁, merged⟩, migrated, h⟩ := bind_eq_ok.mp h
  obtain ⟨unsorted, -, h⟩ := bind_eq_ok.mp h
  obtain ⟨properties, -, h⟩ := bind_eq_ok.mp h
  obtain ⟨_, -, h⟩ := bind_eq_ok.mp h
  obtain ⟨⟨s₂, db⟩, primary, h⟩ := bind_eq_ok.mp h
  obtain ⟨⟨s₃, indexes⟩, secondary, h⟩ := bind_eq_ok.mp h
  obtain ⟨counter, -, h⟩ := bind_eq_ok.mp h
  obtain ⟨_, -, h⟩ := bind_eq_ok.mp h
  cases pure_eq_ok.mp h
  obtain ⟨first, rfl⟩ := leaves_migrateProperties migrated
  have last := (leaves_openCollectionDb primary).trans (leaves_openIndexes secondary)
  refine ⟨?_, fun db => ?_, fun db => ?_⟩
  · rw [last.info]
    show s₁.info.insert _ _ = _
    rw [first.info]
    rfl
  · rw [last.objects]
    exact first.objects db
  · rw [last.entries]
    exact first.entries db

end

/-! ## The loop -/

/-- The last schema of a name. -/
def lastNamed (schemas : List IsarSchema) (name : String) : Option IsarSchema :=
  schemas.reverse.find? fun c => c.name == name

/-- What the turns for `done` have committed. -/
structure Committed (existing : String → Option IsarSchema) (done : List IsarSchema)
    (s s' : Storage) : Prop where
  info : ∀ name, s'.info.find name = match lastNamed done name with
    | some c => some (savedSchema c (keptProperties (existing name) c))
    | none => s.info.find name
  objects : ∀ db, s'.objects db = s.objects db
  entries : ∀ db, s'.entries db =
    if ∃ c ∈ done, db ∈ droppedDbs (existing c.name) c then .empty else s.entries db

theorem lastNamed_concat (done : List IsarSchema) (c : IsarSchema) (name : String) :
    lastNamed (done ++ [c]) name = if c.name = name then some c else lastNamed done name := by
  unfold lastNamed
  rw [List.reverse_append, List.reverse_singleton, List.singleton_append, List.find?_cons]
  by_cases same : c.name = name
  · simp [same]
  · simp [same, beq_eq_false_iff_ne.mpr same]

section
variable {refused : Faults} {existingSchemas : List IsarSchema} {schemaNames : List String}

/-- What has been committed, and one more turn. -/
theorem Committed.concat {existing : String → Option IsarSchema} {done : List IsarSchema}
    {c : IsarSchema} {s s₁ s' : Storage} (committed : Committed existing done s s₁)
    (turn : Turn (existing c.name) c s₁ s') : Committed existing (done ++ [c]) s s' := by
  refine ⟨fun name => ?_, fun db => (turn.objects db).trans (committed.objects db), fun db => ?_⟩
  · rw [turn.info, SortedMap.find_insert, lastNamed_concat]
    by_cases same : c.name = name
    · subst same
      simp
    · rw [if_neg fun eq => same eq.symm, if_neg same]
      exact committed.info name
  · rw [turn.entries, committed.entries]
    by_cases last : db ∈ droppedDbs (existing c.name) c
    · rw [if_pos last, if_pos ⟨c, by simp, last⟩]
    · have iff : (∃ c' ∈ done ++ [c], db ∈ droppedDbs (existing c'.name) c') ↔
          ∃ c' ∈ done, db ∈ droppedDbs (existing c'.name) c' := by
        simp only [List.mem_append, List.mem_singleton]
        refine ⟨fun ⟨c', mem, dropped⟩ => ?_, fun ⟨c', mem, dropped⟩ => ⟨c', Or.inl mem, dropped⟩⟩
        rcases mem with mem | rfl
        · exact ⟨c', mem, dropped⟩
        · exact absurd dropped last
      rw [if_neg last]
      simp only [iff]

/-- The loop ends behind the last schema or at one whose transaction fails, and everything before
it is committed. -/
theorem committed_of_migrateSchemas {start s s' : Storage} {n : Nat}
    {cols : List (NativeCollection × Int64)} {schemas before : List IsarSchema}
    {r : Result (List (NativeCollection × Int64))}
    (committed : Committed (fun name => existingSchemas.find? fun c => c.name == name) before
      start s)
    (h : migrateSchemas refused existingSchemas schemaNames n s cols schemas = (s', r)) :
    ∃ done rest, schemas = done ++ rest ∧
      Committed (fun name => existingSchemas.find? fun c => c.name == name) (before ++ done)
        start s' ∧
      ((rest = [] ∧ ∃ cols, r = .ok cols) ∨ ∃ c tail e index, rest = c :: tail ∧ r = .error e ∧
        migrateSchema (refused (n + done.length)) existingSchemas schemaNames index s' c =
          .error e) := by
  induction schemas generalizing n s cols before with
  | nil =>
    cases h
    exact ⟨[], [], rfl, by simpa using committed, Or.inl ⟨rfl, cols, rfl⟩⟩
  | cons c schemas ih =>
    unfold migrateSchemas at h
    cases turn : migrateSchema (refused n) existingSchemas schemaNames cols.length s c with
    | error e =>
      rw [turn] at h
      cases h
      exact ⟨[], c :: schemas, rfl, by simpa using committed,
        Or.inr ⟨c, schemas, e, cols.length, rfl, rfl, turn⟩⟩
    | ok result =>
      rw [turn] at h
      obtain ⟨s₁, col⟩ := result
      obtain ⟨done, rest, rfl, committed', ends⟩ :=
        ih (committed.concat (turn_of_migrateSchema turn)) h
      refine ⟨c :: done, rest, rfl, by simpa using committed', ?_⟩
      have position : n + (c :: done).length = n + 1 + done.length := by
        rw [List.length_cons]
        omega
      rw [position]
      exact ends

end

/-! ## A failed migration -/

/-- Where a migration fails: in the transaction that reads the schemas, at a schema, or when it
removes collections; `done` are the schemas in front of it. -/
inductive FailsAt (refused : Faults) (schemas : List IsarSchema) (s s' : Storage) (e : Fault) :
    List IsarSchema → Prop
  | reading (failed : readSchemas (refused 0) s = .error e) : FailsAt refused schemas s s' e []
  | schema (done : List IsarSchema) (c : IsarSchema) (rest : List IsarSchema) (index : Nat)
    (split : schemas = done ++ c :: rest)
    (failed : migrateSchema (refused (1 + done.length)) s.schemas (schemas.map IsarSchema.name)
      index s' c = .error e) : FailsAt refused schemas s s' e done
  | removing
    (failed : removeCollections (refused (schemas.length + 1)) s.schemas schemas s' = .error e) :
    FailsAt refused schemas s s' e schemas

/-- Every stored schema is stored as it was, with the same objects and the same index entries. -/
def Unharmed (s s' : Storage) : Prop :=
  ∀ name existing, s.info.find name = some existing → s'.info.find name = some existing ∧
    s'.objects name = s.objects name ∧
    ∀ i ∈ existing.indexes, s'.entries (indexDb name i.name) = s.entries (indexDb name i.name)

/-- What would be done for the schemas changes nothing: a stored schema would be stored again as it
is, and the indexes that would be dropped are empty. -/
def Settled (s : Storage) (schemas : List IsarSchema) : Prop :=
  ∀ name existing, s.info.find name = some existing →
    (∀ c, lastNamed schemas name = some c →
      savedSchema c (mergedProperties c existing) = existing) ∧
    ∀ c ∈ schemas, c.name = name → ∀ i ∈ (c.findChanges existing).dropIndexes,
      s.entries (indexDb name i) = .empty

theorem mem_droppedDbs {existing : Option IsarSchema} {c : IsarSchema} {db : Db} :
    db ∈ droppedDbs existing c ↔ ∃ e, existing = some e ∧
      ∃ i ∈ (c.findChanges e).dropIndexes, indexDb c.name i = db := by
  cases existing with
  | none => simp [droppedDbs]
  | some e => simp [droppedDbs]

/-- What is committed harms nothing exactly if it changes nothing. -/
theorem unharmed_iff {s s' : Storage} {done : List IsarSchema}
    (committed : Committed (fun name => s.info.find name) done s s') :
    Unharmed s s' ↔ Settled s done := by
  refine ⟨fun unharmed name existing stored => ?_, fun settled name existing stored => ?_⟩
  · obtain ⟨info, -, entries⟩ := unharmed name existing stored
    refine ⟨fun c last => ?_, fun c mem same i drop => ?_⟩
    · rw [committed.info, last, stored] at info
      exact Option.some.inj info
    · -- the dropped index is one of the stored schema
      obtain ⟨old, there, rfl⟩ := List.mem_map.mp (IsarSchema.dropIndexes_sub_names c existing drop)
      have dropped : ∃ c ∈ done, indexDb name old.name ∈ droppedDbs (s.info.find c.name) c := by
        refine ⟨c, mem, mem_droppedDbs.mpr ⟨existing, same ▸ stored, old.name, drop, ?_⟩⟩
        rw [same]
      rw [← entries old there, committed.entries, if_pos dropped]
  · obtain ⟨last, empty⟩ := settled name existing stored
    refine ⟨?_, committed.objects name, fun i there => ?_⟩
    · rw [committed.info]
      cases found : lastNamed done name with
      | none => exact stored
      | some c =>
        simp only [stored]
        exact congrArg some (last c found)
    · rw [committed.entries]
      by_cases dropped : ∃ c ∈ done, indexDb name i.name ∈ droppedDbs (s.info.find c.name) c
      · obtain ⟨c, mem, dropped'⟩ := dropped
        obtain ⟨e, stored', j, drop, same⟩ := mem_droppedDbs.mp dropped'
        rw [if_pos ⟨c, mem, dropped'⟩, ← same]
        exact ((settled c.name e stored').2 c mem rfl j drop).symm
      · rw [if_neg dropped]

/-- A migration that fails leaves everything that was stored as it was exactly if what it has
committed before, one schema after the other, changed nothing. -/
theorem failed_migration_exact (refused : Faults) {schemas : List IsarSchema} {s s' : Storage}
    {e : Fault} (failed : performMigration refused schemas s = (s', .error e)) :
    ∃ done, FailsAt refused schemas s s' e done ∧ (Unharmed s s' ↔ Settled s done) := by
  have start : Committed (fun name => s.schemas.find? fun c => c.name == name) [] s s :=
    ⟨fun _ => rfl, fun _ => rfl, fun _ => by simp⟩
  have existing : (fun name => s.schemas.find? fun c => c.name == name) =
      fun name => s.info.find name := funext s.find?_schemas
  unfold performMigration at failed
  cases reading : readSchemas (refused 0) s with
  | error fault =>
    rw [reading] at failed
    cases failed
    rw [existing] at start
    exact ⟨[], .reading reading, unharmed_iff start⟩
  | ok existingSchemas =>
    have eq : existingSchemas = s.schemas := by
      obtain ⟨_, -, h⟩ := bind_eq_ok.mp reading
      obtain ⟨_, -, h⟩ := bind_eq_ok.mp h
      obtain ⟨_, -, h⟩ := bind_eq_ok.mp h
      obtain ⟨_, -, h⟩ := bind_eq_ok.mp h
      exact (pure_eq_ok.mp h).symm
    subst eq
    rw [reading] at failed
    cases loop : migrateSchemas refused s.schemas (schemas.map IsarSchema.name) 1 s [] schemas with
    | mk s₁ r =>
      obtain ⟨done, rest, split, committed, ends⟩ := committed_of_migrateSchemas start loop
      rw [existing, List.nil_append] at committed
      simp only [loop] at failed
      rcases ends with ⟨rfl, cols, rfl⟩ | ⟨c, tail, fault, index, rfl, rfl, turn⟩
      · rw [List.append_nil] at split
        subst split
        cases removing : removeCollections (refused (schemas.length + 1)) s.schemas schemas s₁ with
        | error fault =>
          simp only [removing] at failed
          cases failed
          exact ⟨schemas, .removing removing, unharmed_iff committed⟩
        | ok s₂ =>
          simp only [removing] at failed
          cases failed
      · cases failed
        exact ⟨done, .schema done c tail index split turn, unharmed_iff committed⟩

/-- A collection with an index, as it is stored. -/
def storedTask : IsarSchema where
  name := "Task"
  idName := none
  embedded := false
  properties := [⟨some "due", .long, none⟩]
  indexes := [{ name := "due", properties := ["due"], unique := false, hash := false }]
  version := 3

/-- A collection that was stored by an earlier version. -/
def storedUser : IsarSchema where
  name := "User"
  idName := none
  embedded := false
  properties := [⟨some "age", .long, none⟩]
  indexes := []
  version := 2

/-- A task with its index entry. -/
def taskStorage : Storage where
  info := (SortedMap.empty.insert "Task" storedTask).insert "User" storedUser
  named := by decide
  primary := fun db => if db = "Task" then some (SortedMap.empty.insert 1 [8, 0, 0]) else none
  index := fun db => if db = "_Task_due" then some (MultiMap.empty.put [5] [1]) else none

/-- Nothing fails but what the versions make fail. -/
def noFaults : Faults := fun _ _ _ => none

/-- The index of the tasks is to be removed, the users stay as they are. -/
def requested : List IsarSchema := [storedTask.withoutIndex
    { name := "due", properties := ["due"], unique := false, hash := false }, storedUser]

/-- The tasks are stored as they were before the users fail. -/
theorem failed_migration_exact_on_tasks : ∃ s',
    performMigration noFaults [storedTask, storedUser] taskStorage =
        (s', .error (.error .versionError)) ∧
      FailsAt noFaults [storedTask, storedUser] taskStorage s' (.error .versionError)
        [storedTask] ∧
      (Unharmed taskStorage s' ↔ Settled taskStorage [storedTask]) := by
  refine ⟨_, rfl, ?_⟩
  obtain ⟨done, failsAt, exact_⟩ :=
    @failed_migration_exact noFaults [storedTask, storedUser] taskStorage _ _ rfl
  have first : done = [storedTask] := by
    cases failsAt with
    | reading failed => cases failed
    | removing failed => cases failed
    | schema _ c rest index split failed =>
      cases done with
      | nil =>
        cases split
        cases index <;> cases failed
      | cons task done =>
        cases done with
        | nil =>
          cases split
          rfl
        | cons user done => simp at split
  subst first
  exact ⟨failsAt, exact_⟩

/-- With the tasks first the index is gone when the version error is returned. -/
theorem version_error_loses_index :
    ∃ s', performMigration noFaults requested taskStorage = (s', .error (.error .versionError)) ∧
      s'.info.find "Task" ≠ some storedTask ∧ s'.index "_Task_due" = none ∧
      taskStorage.index "_Task_due" = some (MultiMap.empty.put [5] [1]) :=
  ⟨_, rfl, by decide, rfl, rfl⟩

end IsarPlus.Native
