import IsarPlus.Native.Proofs.StoredLayouts

/-!
# Stored indexes

A stored schema says where the properties of its indexes lie, and thereby under which keys an index
has its objects. What a migration does to the databases of indexes: which ones it empties, and which
ones are there when the collections are opened.
-/

namespace IsarPlus.Native
open ByteBuffer OrderedStore

/-! ## The indexes of a stored schema -/

/-- Where stored properties place the one of a name. -/
def storedProperty (properties : List PropertySchema) (name : String) : Option NativeProperty := do
  let i ← properties.findIdx? fun p => p.name == some name
  let p ← properties[i]?
  pure { dataType := p.dataType, offset := slotStart properties i, embeddedCollectionIndex := none }

/-- An index of a stored schema with its properties at their places. -/
def storedIndex (e : IsarSchema) (i : IndexSchema) : Option NativeIndex := do
  let properties ← i.properties.mapM (storedProperty e.properties)
  pure { name := i.name, properties, unique := i.unique, hash := i.hash, db := indexDb e.name i.name }

section
variable {properties : List PropertySchema} {name : String}

theorem place_of_name_unique
    (nodup : ((properties.filter fun p => p.name.isSome).map PropertySchema.name).Nodup) {i j : Nat}
    {p q : PropertySchema} (first : properties[i]? = some p) (second : properties[j]? = some q)
    (named : p.name = some name) (named' : q.name = some name) : i = j := by
  have later {l : List PropertySchema} {k : Nat} {r : PropertySchema} (there : l[k]? = some r)
      (called : r.name = some name) :
      some name ∈ (l.filter fun p => p.name.isSome).map PropertySchema.name :=
    List.mem_map.mpr ⟨r, List.mem_filter.mpr ⟨List.mem_of_getElem? there, by rw [called]; rfl⟩, called⟩
  induction properties generalizing i j with
  | nil => cases first
  | cons r properties ih =>
    have rest : ((properties.filter fun p => p.name.isSome).map PropertySchema.name).Nodup :=
      nodup.sublist (((List.sublist_cons_self r properties).filter _).map _)
    have fresh (called : r.name = some name) :
        some name ∉ (properties.filter fun p => p.name.isSome).map PropertySchema.name := by
      rw [filter_named_pos (by rw [called]; rfl), List.map_cons, called] at nodup
      exact (List.nodup_cons.mp nodup).1
    cases i with
    | zero =>
      cases first
      cases j with
      | zero => rfl
      | succ j => exact absurd (later (l := properties) second named') (fresh named)
    | succ i =>
      cases j with
      | zero =>
        cases second
        exact absurd (later (l := properties) first named) (fresh named')
      | succ j => exact congrArg Nat.succ (ih rest first second)

/-- Names are unique, so that a stored property is found at its place. -/
theorem storedProperty_eq_some
    (nodup : ((properties.filter fun p => p.name.isSome).map PropertySchema.name).Nodup)
    {q : NativeProperty} : storedProperty properties name = some q ↔
      ∃ i p, properties[i]? = some p ∧ p.name = some name ∧
        q = { dataType := p.dataType, offset := slotStart properties i,
              embeddedCollectionIndex := none } := by
  constructor
  · intro found
    obtain ⟨i, at_, found⟩ := Option.bind_eq_some_iff.mp found
    obtain ⟨p, there, found⟩ := Option.bind_eq_some_iff.mp found
    obtain ⟨lt, named, -⟩ := List.findIdx?_eq_some_iff_getElem.mp at_
    rw [List.getElem?_eq_getElem lt] at there
    cases there
    exact ⟨i, _, List.getElem?_eq_getElem lt, beq_iff_eq.mp named, (Option.some.inj found).symm⟩
  · rintro ⟨i, p, there, named, rfl⟩
    obtain ⟨lt, eq⟩ := List.getElem?_eq_some_iff.mp there
    have at_ : (properties.findIdx? fun p => p.name == some name) = some i := by
      refine List.findIdx?_eq_some_iff_getElem.mpr ⟨lt, ?_, fun j below => ?_⟩
      · rw [eq, named, beq_self_eq_true]
      · intro same
        have same := beq_iff_eq.mp same
        have := place_of_name_unique nodup (List.getElem?_eq_getElem (below.trans lt)) there same
          named
        omega
    simp only [storedProperty, at_, there, Option.bind_eq_bind, Option.bind_some]
    rfl

end

theorem mapM_of_imp {α β : Type} {f g : α → Option β} {l : List α} {r : List β}
    (imp : ∀ a ∈ l, ∀ b, f a = some b → g a = some b) (h : l.mapM f = some r) :
    l.mapM g = some r := by
  induction l generalizing r with
  | nil => exact h
  | cons a l ih =>
    rw [List.mapM_cons] at h ⊢
    obtain ⟨b, first, h⟩ := Option.bind_eq_some_iff.mp h
    obtain ⟨rest, later, h⟩ := Option.bind_eq_some_iff.mp h
    rw [imp a List.mem_cons_self b first, Option.bind_eq_bind, Option.bind_some,
      ih (fun a mem => imp a (List.mem_cons_of_mem _ mem)) later]
    exact h

/-- What is there is read. -/
theorem exists_of_mapM {α β : Type} {f : α → Option β} {l : List α} {r : List β}
    (h : l.mapM f = some r) : ∀ a ∈ l, ∃ b ∈ r, f a = some b := by
  induction l generalizing r with
  | nil => simp
  | cons a l ih =>
    rw [List.mapM_cons] at h
    obtain ⟨b, first, h⟩ := Option.bind_eq_some_iff.mp h
    obtain ⟨rest, later, eq⟩ := Option.bind_eq_some_iff.mp h
    cases eq
    intro a' mem
    rcases List.mem_cons.mp mem with rfl | mem
    · exact ⟨b, List.mem_cons_self, first⟩
    · obtain ⟨b', memB, found⟩ := ih later a' mem
      exact ⟨b', List.mem_cons_of_mem _ memB, found⟩

theorem mapM_storedProperty_of_storedIndex {e : IsarSchema} {i : IndexSchema} {index : NativeIndex}
    (h : storedIndex e i = some index) :
    i.properties.mapM (storedProperty e.properties) = some index.properties ∧
      index.name = i.name ∧ index.db = indexDb e.name i.name := by
  obtain ⟨properties, found, h⟩ := Option.bind_eq_some_iff.mp h
  cases h
  exact ⟨found, rfl, rfl⟩

/-- An index whose properties are where they were is what it was. -/
theorem storedIndex_of_imp {e e' : IsarSchema} {i : IndexSchema} {index : NativeIndex}
    (name : e'.name = e.name)
    (imp : ∀ p ∈ i.properties, ∀ q, storedProperty e.properties p = some q →
      storedProperty e'.properties p = some q) (h : storedIndex e i = some index) :
    storedIndex e' i = some index := by
  obtain ⟨properties, found, h⟩ := Option.bind_eq_some_iff.mp h
  rw [storedIndex, mapM_of_imp imp found, name]
  exact h

/-! ## Opened indexes -/

/-- The indexes of a collection are those of the schema with which it is stored. -/
structure Indexed (e : IsarSchema) (col : NativeCollection) : Prop where
  name : col.name = e.name
  db : e.indexes ≠ [] → e.embedded = false ∧ col.db = some col.name
  indexes : e.indexes.mapM (storedIndex e) = some col.indexes

theorem storedIndexes_of_openIndexes {refused : TxnFaults} {e : IsarSchema}
    {properties : List (String × NativeProperty)} {s s' : Storage} {indexes : List IndexSchema}
    {opened : List NativeIndex}
    (own : ∀ i ∈ indexes, ∀ name ∈ i.properties, ∀ q, properties.lookup name = some q →
      storedProperty e.properties name = some q)
    (h : openIndexes refused e.name properties s indexes = .ok (s', opened)) :
    indexes.mapM (storedIndex e) = some opened := by
  induction indexes generalizing s opened with
  | nil =>
    cases pure_eq_ok.mp h
    rfl
  | cons index indexes ih =>
    obtain ⟨⟨s₁, db⟩, first, h⟩ := bind_eq_ok.mp h
    obtain ⟨native, found, h⟩ := bind_eq_ok.mp h
    obtain ⟨⟨s₂, rest⟩, others, h⟩ := bind_eq_ok.mp h
    have same : db = indexDb e.name index.name := by
      obtain ⟨_, -, named⟩ := bind_eq_ok.mp first
      cases pure_eq_ok.mp named
      rfl
    cases pure_eq_ok.mp h
    have native' := mapM_of_imp (own index List.mem_cons_self) (orPanic_eq_ok.mp found)
    rw [List.mapM_cons, storedIndex, native',
      ih (fun i mem => own i (List.mem_cons_of_mem _ mem)) others, same]
    rfl

/-- The properties of indexes are no objects, so that they have no target. -/
theorem collection_of_indexed {schemas : List IsarSchema} {schema : IsarSchema}
    (verified : IsarSchema.verifySchemas schemas = .ok ()) (mem : schema ∈ schemas)
    {i : IndexSchema} (memI : i ∈ schema.indexes) {name : String} (memN : name ∈ i.properties) :
    ∃ p ∈ schema.named, p.name = some name ∧ p.collection = none := by
  obtain ⟨p, found, object, -, list⟩ :=
    property_of_verify (IsarSchema.forM_eq_ok verified schema mem) memI memN
  have named : p.name = some name := by simpa using List.find?_some found
  have there := List.mem_of_find?_eq_some found
  refine ⟨p, List.mem_filter.mpr ⟨there, by rw [named]; rfl⟩, named, ?_⟩
  refine (IsarSchema.verified_of_verifySchemas verified schema mem).target p there object ?_
  intro objects
  rw [objects] at list
  cases list

/-- A turn of the migration opens the indexes of the schema as it is stored. -/
theorem indexed_of_migrateSchema {refused : TxnFaults} {existingSchemas schemas : List IsarSchema}
    {schemaNames : List String} {collectionIndex : Nat} {s s' : Storage} {schema : IsarSchema}
    {col : NativeCollection × Int64} (verified : IsarSchema.verifySchemas schemas = .ok ())
    (mem : schema ∈ schemas)
    (oldNames : ∀ e ∈ existingSchemas, (e.named.map PropertySchema.name).Nodup)
    (h : migrateSchema refused existingSchemas schemaNames collectionIndex s schema =
      .ok (s', col)) :
    Indexed (savedSchema schema
      (keptProperties (existingSchemas.find? fun c => c.name == schema.name) schema)) col.1 := by
  have made := madeOf_of_migrateSchema h
  obtain ⟨_, -, h⟩ := bind_eq_ok.mp h
  obtain ⟨⟨s₁, merged⟩, migrated, h⟩ := bind_eq_ok.mp h
  obtain ⟨unsorted, -, h⟩ := bind_eq_ok.mp h
  obtain ⟨properties, -, h⟩ := bind_eq_ok.mp h
  obtain ⟨_, -, h⟩ := bind_eq_ok.mp h
  obtain ⟨⟨s₂, db⟩, primary, h⟩ := bind_eq_ok.mp h
  obtain ⟨⟨s₃, indexes⟩, secondary, h⟩ := bind_eq_ok.mp h
  obtain ⟨counter, -, h⟩ := bind_eq_ok.mp h
  obtain ⟨_, -, h⟩ := bind_eq_ok.mp h
  cases pure_eq_ok.mp h
  obtain ⟨-, rfl⟩ := leaves_migrateProperties migrated
  have names := (IsarSchema.verified_of_verifySchemas verified schema mem).properties
  have perm := perm_named_keptProperties (existingSchemas.find? fun c => c.name == schema.name)
    names fun e found => oldNames e (List.mem_of_find?_eq_some found)
  refine ⟨rfl, fun some_ => ?_, ?_⟩
  · have stored : schema.embedded = false := by
      have verify := IsarSchema.forM_eq_ok verified schema mem
      obtain ⟨_, -, verify⟩ := bind_eq_ok.mp verify
      obtain ⟨_, embedded, -⟩ := bind_eq_ok.mp verify
      have some_ : schema.indexes ≠ [] := some_
      simpa [some_] using IsarSchema.of_refuse embedded
    refine ⟨stored, ?_⟩
    show db = some schema.name
    unfold openCollectionDb at primary
    rw [stored] at primary
    obtain ⟨_, -, eq⟩ := map_eq_ok.mp primary
    cases eq
    rfl
  · refine storedIndexes_of_openIndexes (e := savedSchema schema _) ?_ secondary
    intro i memI name memN q found
    obtain ⟨p, there, named, scalar⟩ := collection_of_indexed verified mem memI memN
    obtain ⟨k, p', at_, named', native⟩ := made.mem_properties.mp (mem_of_lookup found)
    have nodup := (perm.map PropertySchema.name).nodup_iff.mpr (IsarSchema.nodup_named names)
    have there' : p' ∈ schema.named := perm.subset (List.mem_filter.mpr
      ⟨List.mem_of_getElem? at_, by rw [named']; rfl⟩)
    obtain rfl := List.inj_on_of_nodup_map (IsarSchema.nodup_named names) there' there
      (named'.trans named.symm)
    refine (storedProperty_eq_some nodup).mpr ⟨k, p', at_, named', ?_⟩
    unfold nativeProperty at native
    rw [scalar] at native
    exact (Option.some.inj native).symm

theorem indexed_of_migrateSchemas {refused : Faults} {existingSchemas all : List IsarSchema}
    {schemaNames : List String} {n : Nat} {s s' : Storage} {schemas : List IsarSchema}
    {before cols : List (NativeCollection × Int64)}
    (verified : IsarSchema.verifySchemas all = .ok ()) (sub : ∀ c ∈ schemas, c ∈ all)
    (oldNames : ∀ e ∈ existingSchemas, (e.named.map PropertySchema.name).Nodup)
    (opened : ∀ col ∈ before, ∃ c ∈ all, Indexed (savedSchema c
      (keptProperties (existingSchemas.find? fun e => e.name == c.name) c)) (Prod.fst col))
    (h : migrateSchemas refused existingSchemas schemaNames n s before schemas = (s', .ok cols)) :
    ∀ col ∈ cols, ∃ c ∈ all, Indexed (savedSchema c
      (keptProperties (existingSchemas.find? fun e => e.name == c.name) c)) (Prod.fst col) := by
  induction schemas generalizing n s before with
  | nil =>
    cases h
    exact opened
  | cons c schemas ih =>
    unfold migrateSchemas at h
    cases turn : migrateSchema (refused n) existingSchemas schemaNames before.length s c with
    | error e =>
      rw [turn] at h
      cases h
    | ok result =>
      rw [turn] at h
      have mem := sub c List.mem_cons_self
      refine ih (fun c mem => sub c (List.mem_cons_of_mem _ mem)) ?_ h
      intro col listed
      rcases List.mem_append.mp listed with listed | listed
      · exact opened col listed
      · rw [List.mem_singleton.mp listed]
        exact ⟨c, mem, indexed_of_migrateSchema verified mem oldNames turn⟩

/-! ## Databases that are there -/

/-- The databases of a storage are there still, apart from dropped ones of indexes. -/
structure Retains (dropped : List Db) (s s' : Storage) : Prop where
  primary : ∀ db, (s.primary db).isSome → (s'.primary db).isSome
  index : ∀ db, db ∉ dropped → (s.index db).isSome → (s'.index db).isSome

section
variable {refused : TxnFaults} {s s' s₁ : Storage}

theorem Retains.refl (s : Storage) : Retains [] s s := ⟨fun _ there => there, fun _ _ there => there⟩

theorem Retains.trans {dropped dropped' : List Db} (first : Retains dropped s s₁)
    (second : Retains dropped' s₁ s') : Retains (dropped ++ dropped') s s' := by
  refine ⟨fun db there => second.primary db (first.primary db there), fun db absent there => ?_⟩
  rw [List.mem_append, not_or] at absent
  exact second.index db absent.2 (first.index db absent.1 there)

theorem isSome_update {α : Type} {f : Db → Option α} {db db' : Db} {a : α}
    (there : (f db').isSome) : (Function.update f db (some a) db').isSome := by
  by_cases same : db' = db
  · subst same
    simp
  · simpa [same] using there

theorem retains_openDb {db : Db} (h : openDb refused s db = .ok s') :
    Retains [] s s' ∧ (s'.primary db).isSome := by
  obtain ⟨_, -, h⟩ := bind_eq_ok.mp h
  obtain rfl := pure_eq_ok.mp h
  exact ⟨⟨fun _ there => isSome_update there, fun _ _ there => there⟩, by simp [Storage.openPrimary]⟩

theorem retains_openIndexDb {colName indexName : String} {db : Db}
    (h : openIndexDb refused s colName indexName = .ok (s', db)) :
    Retains [] s s' ∧ (s'.index (indexDb colName indexName)).isSome := by
  obtain ⟨-, rfl⟩ := leaves_openIndexDb h
  exact ⟨⟨fun _ there => there, fun _ _ there => isSome_update there⟩, by simp [Storage.openIndex]⟩

theorem retains_dropIndexDb {colName indexName : String}
    (h : dropIndexDb refused s colName indexName = .ok s') :
    Retains [indexDb colName indexName] s s' := by
  obtain ⟨⟨s₁, db⟩, opened, h⟩ := bind_eq_ok.mp h
  obtain ⟨_, -, h⟩ := bind_eq_ok.mp h
  obtain rfl := pure_eq_ok.mp h
  have named : db = indexDb colName indexName := by
    obtain ⟨_, -, named⟩ := bind_eq_ok.mp opened
    cases pure_eq_ok.mp named
    rfl
  obtain ⟨retains, -⟩ := retains_openIndexDb opened
  refine ⟨retains.primary, fun db' absent there => ?_⟩
  rw [List.mem_singleton] at absent
  show (Function.update s₁.index db none db').isSome
  rw [named, Function.update_of_ne absent]
  exact retains.index db' List.not_mem_nil there

theorem retains_dropIndexes {colName : String} {names : List String}
    (h : names.foldlM (fun s index => dropIndexDb refused s colName index) s = .ok s') :
    Retains (names.map (indexDb colName)) s s' := by
  induction names generalizing s with
  | nil =>
    obtain rfl := pure_eq_ok.mp h
    exact Retains.refl _
  | cons name names ih =>
    obtain ⟨s₁, first, rest⟩ := bind_eq_ok.mp h
    exact (retains_dropIndexDb first).trans (ih rest)

theorem retains_migrateProperties {existingSchemas : List IsarSchema} {schema : IsarSchema}
    {merged : List PropertySchema}
    (h : migrateProperties refused existingSchemas s schema = .ok (s', merged)) :
    Retains (droppedDbs (existingSchemas.find? fun c => c.name == schema.name) schema) s s' := by
  unfold migrateProperties at h
  cases found : existingSchemas.find? fun c => c.name == schema.name with
  | none =>
    rw [found] at h
    cases pure_eq_ok.mp h
    exact Retains.refl s
  | some existing =>
    rw [found] at h
    have h : migrateCollection refused s schema existing = .ok (s', merged) := h
    unfold migrateCollection at h
    by_cases old : existing.version ≠ isarFileVersion
    · simp [old] at h
    · rw [if_neg old] at h
      obtain ⟨s₁, drops, h⟩ := bind_eq_ok.mp h
      cases pure_eq_ok.mp h
      exact retains_dropIndexes drops

theorem retains_openCollectionDb {schema : IsarSchema} {db : Option Db}
    (h : openCollectionDb refused s schema = .ok (s', db)) :
    Retains [] s s' ∧ (schema.embedded = false → (s'.primary schema.name).isSome) := by
  unfold openCollectionDb at h
  by_cases embedded : schema.embedded = true
  · rw [if_pos embedded] at h
    cases pure_eq_ok.mp h
    refine ⟨Retains.refl _, fun stored => ?_⟩
    rw [embedded] at stored
    cases stored
  · rw [if_neg embedded] at h
    obtain ⟨s₁, opened, eq⟩ := map_eq_ok.mp h
    cases eq
    obtain ⟨retains, there⟩ := retains_openDb opened
    exact ⟨retains, fun _ => there⟩

theorem retains_openIndexes {colName : String} {properties : List (String × NativeProperty)}
    {indexes : List IndexSchema} {opened : List NativeIndex}
    (h : openIndexes refused colName properties s indexes = .ok (s', opened)) :
    Retains [] s s' ∧ ∀ i ∈ indexes, (s'.index (indexDb colName i.name)).isSome := by
  induction indexes generalizing s opened with
  | nil =>
    cases pure_eq_ok.mp h
    exact ⟨Retains.refl _, by simp⟩
  | cons index indexes ih =>
    obtain ⟨⟨s₁, db⟩, first, h⟩ := bind_eq_ok.mp h
    obtain ⟨_, -, h⟩ := bind_eq_ok.mp h
    obtain ⟨⟨s₂, rest⟩, others, h⟩ := bind_eq_ok.mp h
    cases pure_eq_ok.mp h
    obtain ⟨retains, there⟩ := retains_openIndexDb first
    obtain ⟨retains', there'⟩ := ih others
    refine ⟨retains.trans retains', fun i mem => ?_⟩
    rcases List.mem_cons.mp mem with rfl | mem
    · exact retains'.index _ List.not_mem_nil there
    · exact there' i mem

/-- The databases of a schema are there. -/
structure Present (s : Storage) (c : IsarSchema) : Prop where
  primary : c.embedded = false → (s.primary c.name).isSome
  index : ∀ i ∈ c.indexes, (s.index (indexDb c.name i.name)).isSome

theorem present_of_migrateSchema {existingSchemas : List IsarSchema} {schemaNames : List String}
    {collectionIndex : Nat} {schema : IsarSchema} {col : NativeCollection × Int64}
    (h : migrateSchema refused existingSchemas schemaNames collectionIndex s schema =
      .ok (s', col)) :
    Retains (droppedDbs (existingSchemas.find? fun c => c.name == schema.name) schema) s s' ∧
      Present s' schema := by
  obtain ⟨_, -, h⟩ := bind_eq_ok.mp h
  obtain ⟨⟨s₁, merged⟩, migrated, h⟩ := bind_eq_ok.mp h
  obtain ⟨unsorted, -, h⟩ := bind_eq_ok.mp h
  obtain ⟨properties, -, h⟩ := bind_eq_ok.mp h
  obtain ⟨_, -, h⟩ := bind_eq_ok.mp h
  obtain ⟨⟨s₂, db⟩, primary, h⟩ := bind_eq_ok.mp h
  obtain ⟨⟨s₃, indexes⟩, secondary, h⟩ := bind_eq_ok.mp h
  obtain ⟨counter, -, h⟩ := bind_eq_ok.mp h
  obtain ⟨_, -, h⟩ := bind_eq_ok.mp h
  cases pure_eq_ok.mp h
  have first := retains_migrateProperties migrated
  obtain ⟨second, there⟩ := retains_openCollectionDb primary
  obtain ⟨third, there'⟩ := retains_openIndexes secondary
  have saved : Retains [] s₁ (s₁.putSchema (savedSchema schema merged)) :=
    ⟨fun _ there => there, fun _ _ there => there⟩
  have all := first.trans (saved.trans (second.trans third))
  rw [List.nil_append, List.nil_append, List.append_nil] at all
  exact ⟨all, fun stored => third.primary _ (there stored), there'⟩

/-! ## Removed collections -/

theorem entries_of_deleteCollection {c : IsarSchema}
    (h : deleteCollection refused s c = .ok s') (db : Db) :
    s'.entries db = if db ∈ c.indexes.map (fun i => indexDb c.name i.name) then .empty
      else s.entries db := by
  obtain ⟨s₁, opened, h⟩ := bind_eq_ok.mp h
  obtain ⟨_, -, h⟩ := bind_eq_ok.mp h
  obtain ⟨s₂, dropped, h⟩ := bind_eq_ok.mp h
  obtain ⟨_, -, h⟩ := bind_eq_ok.mp h
  obtain rfl := pure_eq_ok.mp h
  have dropped : (c.indexes.map IndexSchema.name).foldlM
      (fun s index => dropIndexDb refused s c.name index) (s₁.dropPrimary c.name) = .ok s₂ := by
    rw [List.foldlM_map]
    exact dropped
  have entries := (leaves_dropIndexes dropped).entries db
  rw [List.map_map] at entries
  show s₂.entries db = _
  rw [entries]
  congr 1
  show s₁.entries db = _
  simpa using (leaves_openDb opened).entries db

theorem retains_of_deleteCollection {c : IsarSchema} (h : deleteCollection refused s c = .ok s') :
    (∀ db, db ≠ c.name → (s.primary db).isSome → (s'.primary db).isSome) ∧
      ∀ db, db ∉ c.indexes.map (fun i => indexDb c.name i.name) → (s.index db).isSome →
        (s'.index db).isSome := by
  obtain ⟨s₁, opened, h⟩ := bind_eq_ok.mp h
  obtain ⟨_, -, h⟩ := bind_eq_ok.mp h
  obtain ⟨s₂, dropped, h⟩ := bind_eq_ok.mp h
  obtain ⟨_, -, h⟩ := bind_eq_ok.mp h
  obtain rfl := pure_eq_ok.mp h
  have dropped : (c.indexes.map IndexSchema.name).foldlM
      (fun s index => dropIndexDb refused s c.name index) (s₁.dropPrimary c.name) = .ok s₂ := by
    rw [List.foldlM_map]
    exact dropped
  obtain ⟨first, -⟩ := retains_openDb opened
  have second := retains_dropIndexes dropped
  rw [List.map_map] at second
  refine ⟨fun db other there => ?_, fun db absent there => ?_⟩
  · apply second.primary db
    show (Function.update s₁.primary c.name none db).isSome
    rw [Function.update_of_ne other]
    exact first.primary db there
  · exact second.index db absent (first.index db List.not_mem_nil there)

theorem entries_of_removed {removed : List IsarSchema}
    (h : removed.foldlM (deleteCollection refused) s = .ok s') (db : Db) :
    s'.entries db = if ∃ c ∈ removed, ∃ i ∈ c.indexes, indexDb c.name i.name = db then .empty
      else s.entries db := by
  induction removed generalizing s with
  | nil =>
    obtain rfl := pure_eq_ok.mp h
    simp
  | cons c removed ih =>
    obtain ⟨s₁, first, rest⟩ := bind_eq_ok.mp h
    rw [ih rest, entries_of_deleteCollection first]
    by_cases late : ∃ c ∈ removed, ∃ i ∈ c.indexes, indexDb c.name i.name = db
    · have any : ∃ c' ∈ c :: removed, ∃ i ∈ c'.indexes, indexDb c'.name i.name = db := by
        obtain ⟨c', mem, found⟩ := late
        exact ⟨c', List.mem_cons_of_mem _ mem, found⟩
      rw [if_pos late, if_pos any]
    · by_cases now : db ∈ c.indexes.map fun i => indexDb c.name i.name
      · obtain ⟨i, there, same⟩ := List.mem_map.mp now
        rw [if_neg late, if_pos now, if_pos ⟨c, List.mem_cons_self, i, there, same⟩]
      · have never : ¬ ∃ c' ∈ c :: removed, ∃ i ∈ c'.indexes, indexDb c'.name i.name = db := by
          rintro ⟨c', mem, i, there, same⟩
          rcases List.mem_cons.mp mem with rfl | mem
          · exact now (List.mem_map.mpr ⟨i, there, same⟩)
          · exact late ⟨c', mem, i, there, same⟩
        rw [if_neg late, if_neg now, if_neg never]

/-- What is not removed is there still. -/
theorem Present.of_removed {removed : List IsarSchema} {c : IsarSchema} (present : Present s c)
    (names : ∀ e ∈ removed, c.name ≠ e.name)
    (apart : ∀ e ∈ removed, ∀ i ∈ c.indexes, ∀ i' ∈ e.indexes,
      indexDb c.name i.name ≠ indexDb e.name i'.name)
    (h : removed.foldlM (deleteCollection refused) s = .ok s') : Present s' c := by
  induction removed generalizing s with
  | nil => exact pure_eq_ok.mp h ▸ present
  | cons e removed ih =>
    obtain ⟨s₁, first, rest⟩ := bind_eq_ok.mp h
    obtain ⟨primary, index⟩ := retains_of_deleteCollection first
    refine ih ⟨fun stored => ?_, fun i mem => ?_⟩
      (fun e mem => names e (List.mem_cons_of_mem _ mem))
      (fun e mem => apart e (List.mem_cons_of_mem _ mem)) rest
    · exact primary _ (names e List.mem_cons_self) (present.primary stored)
    · refine index _ (fun listed => ?_) (present.index i mem)
      obtain ⟨i', mem', same⟩ := List.mem_map.mp listed
      exact apart e List.mem_cons_self i mem i' mem' same.symm

end

/-! ## The whole migration -/

/-- Indexes of two names have two databases, where these are told apart. -/
theorem Unambiguous.apart {schemas : List IsarSchema} (unambiguous : Unambiguous schemas)
    {c c' : IsarSchema} (mem : c ∈ schemas) (mem' : c' ∈ schemas) (differ : c.name ≠ c'.name)
    {i i' : IndexSchema} (there : i ∈ c.indexes) (there' : i' ∈ c'.indexes) :
    indexDb c.name i.name ≠ indexDb c'.name i'.name := by
  intro same
  rcases indexDb_eq_iff.mp same with ⟨same, -⟩ | ⟨rest, name, eq⟩ | ⟨rest, name, eq⟩
  · exact differ same
  · exact unambiguous c mem c' mem' i there i' there' rest name eq
  · exact unambiguous c' mem' c mem i' there' i there rest name eq

/-- The loop leaves the databases of every schema that it has passed. -/
theorem present_of_migrateSchemas {refused : Faults} {existingSchemas : List IsarSchema}
    {schemaNames : List String} {n : Nat} {s s' : Storage} {done schemas : List IsarSchema}
    {before cols : List (NativeCollection × Int64)}
    (unambiguous : Unambiguous (existingSchemas ++ (done ++ schemas)))
    (names : ((done ++ schemas).map IsarSchema.name).Nodup)
    (present : ∀ c ∈ done, Present s c)
    (h : migrateSchemas refused existingSchemas schemaNames n s before schemas = (s', .ok cols)) :
    ∀ c ∈ done ++ schemas, Present s' c := by
  induction schemas generalizing n s before done with
  | nil =>
    cases h
    rw [List.append_nil]
    exact present
  | cons c schemas ih =>
    unfold migrateSchemas at h
    cases turn : migrateSchema (refused n) existingSchemas schemaNames before.length s c with
    | error e =>
      rw [turn] at h
      cases h
    | ok result =>
      rw [turn] at h
      obtain ⟨retains, own⟩ := present_of_migrateSchema turn
      have assoc : done ++ c :: schemas = done ++ [c] ++ schemas := by simp
      rw [assoc] at unambiguous names ⊢
      refine ih unambiguous names (fun c' mem => ?_) h
      rcases List.mem_append.mp mem with mem | mem
      · have differ : c'.name ≠ c.name := by
          intro same
          have listed : c.name ∈ done.map IsarSchema.name := List.mem_map.mpr ⟨c', mem, same⟩
          rw [List.map_append, List.map_append] at names
          exact List.disjoint_of_nodup_append (List.Nodup.of_append_left names) listed (by simp)
        refine ⟨fun stored => retains.primary _ ((present c' mem).primary stored), fun i there => ?_⟩
        refine retains.index _ (fun dropped => ?_) ((present c' mem).index i there)
        obtain ⟨e, found, name, drop, same⟩ := mem_droppedDbs.mp dropped
        obtain ⟨i', there', rfl⟩ := List.mem_map.mp (IsarSchema.dropIndexes_sub_names c e drop)
        have named : e.name = c.name := by simpa using List.find?_some found
        rw [← named] at same differ
        exact unambiguous.apart (List.mem_append_right _ (List.mem_append_left _
            (List.mem_append_left _ mem)))
          (List.mem_append_left _ (List.mem_of_find?_eq_some found)) differ there there' same.symm
      · rw [List.mem_singleton.mp mem]
        exact own

/-- The parts of a migration: the loop, and the removal if the loop has come to its end. -/
theorem parts_of_performMigration {refused : Faults} {schemas : List IsarSchema} {s s' : Storage}
    {r : Result (List (NativeCollection × Int64))}
    (h : performMigration refused schemas s = (s', r)) :
    ∃ done rest s₁, schemas = done ++ rest ∧
      Committed (fun name => s.info.find name) done s s₁ ∧
      ((s' = s₁ ∧ ∃ e, r = .error e) ∨ (rest = [] ∧ ∃ cols, r = .ok cols ∧
        migrateSchemas refused s.schemas (schemas.map IsarSchema.name) 1 s [] schemas =
          (s₁, .ok cols) ∧
        (s.schemas.filter fun c => !schemas.any fun schema => schema.name == c.name).foldlM
          (deleteCollection (refused (schemas.length + 1))) s₁ = .ok s')) := by
  obtain ⟨done, rest, s₁, split, committed, ends⟩ := committed_of_performMigration h
  refine ⟨done, rest, s₁, split, committed, ?_⟩
  rcases ends with failed | ⟨none_, -, cols, eq, loop⟩
  · exact Or.inl failed
  · refine Or.inr ⟨none_, cols, eq, loop, ?_⟩
    subst eq
    unfold performMigration at h
    cases reading : readSchemas (refused 0) s with
    | error fault =>
      rw [reading] at h
      cases h
    | ok existingSchemas =>
      have eq : existingSchemas = s.schemas := by
        obtain ⟨_, -, h⟩ := bind_eq_ok.mp reading
        obtain ⟨_, -, h⟩ := bind_eq_ok.mp h
        obtain ⟨_, -, h⟩ := bind_eq_ok.mp h
        obtain ⟨_, -, h⟩ := bind_eq_ok.mp h
        exact (pure_eq_ok.mp h).symm
      subst eq
      simp only [reading, loop] at h
      cases removing : removeCollections (refused (schemas.length + 1)) s.schemas schemas s₁ with
      | error fault =>
        rw [removing] at h
        cases h
      | ok s₂ =>
        rw [removing] at h
        cases h
        obtain ⟨_, -, removing⟩ := bind_eq_ok.mp removing
        obtain ⟨s₃, removed, removing⟩ := bind_eq_ok.mp removing
        obtain ⟨_, -, removing⟩ := bind_eq_ok.mp removing
        obtain rfl := pure_eq_ok.mp removing
        exact removed

end IsarPlus.Native
