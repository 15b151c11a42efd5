import IsarPlus.Native.Proofs.FailedMigration
import IsarPlus.Core.SchemaChanges
import IsarPlus.Native.Layout
import IsarPlus.Native.Proofs.Separation

/-!
# The layout of opened collections

However many migrations a collection went through, the slots of its properties lie apart, and its
indexes are made of its own properties.
-/

namespace IsarPlus.Native
open ByteBuffer OrderedStore

/-! ## Merged properties -/

section
variable {properties : List PropertySchema}

theorem filter_named_pos {p : PropertySchema} (named : p.name.isSome = true) :
    (p :: properties).filter (fun p => p.name.isSome) =
      p :: properties.filter fun p => p.name.isSome := List.filter_cons_of_pos named

theorem filter_named_neg {p : PropertySchema} (named : ¬ p.name.isSome = true) :
    (p :: properties).filter (fun p => p.name.isSome) =
      properties.filter fun p => p.name.isSome := List.filter_cons_of_neg named

/-- Dropping a property takes it from the named ones. -/
theorem named_dropProperty (name : String)
    (nodup : ((properties.filter fun p => p.name.isSome).map PropertySchema.name).Nodup) :
    (dropProperty properties name).filter (fun p => p.name.isSome) =
      (properties.filter fun p => p.name.isSome).filter fun p => p.name ≠ some name := by
  induction properties with
  | nil => rfl
  | cons p properties ih =>
    by_cases same : p.name = some name
    · have named : p.name.isSome = true := by rw [same]; rfl
      rw [filter_named_pos named, List.map_cons,
        List.nodup_cons] at nodup
      have others : (properties.filter fun p => p.name.isSome).filter
          (fun p => p.name ≠ some name) = properties.filter fun p => p.name.isSome := by
        rw [List.filter_eq_self]
        intro q mem
        apply decide_eq_true
        intro eq
        exact nodup.1 (List.mem_map.mpr ⟨q, mem, eq.trans same.symm⟩)
      rw [dropProperty, if_pos same, filter_named_pos named,
        List.filter_cons_of_neg (by simp), List.filter_cons_of_neg (by simp [same]), others]
    · rw [dropProperty, if_neg same]
      by_cases named : p.name.isSome = true
      · rw [filter_named_pos named, List.map_cons,
          List.nodup_cons] at nodup
        rw [filter_named_pos named,
          filter_named_pos named,
          List.filter_cons_of_pos (by simpa using same), ih nodup.2]
      · rw [filter_named_neg named] at nodup
        rw [filter_named_neg named,
          filter_named_neg named, ih nodup]

theorem named_foldl_dropProperty {names : List String}
    (nodup : ((properties.filter fun p => p.name.isSome).map PropertySchema.name).Nodup) :
    (names.foldl dropProperty properties).filter (fun p => p.name.isSome) =
      (properties.filter fun p => p.name.isSome).filter fun p => p.name ∉ names.map some := by
  induction names generalizing properties with
  | nil => simp
  | cons name names ih =>
    have rest := named_dropProperty name nodup
    rw [List.foldl_cons, ih (by rw [rest]; exact nodup.sublist (List.filter_sublist.map _)), rest,
      List.filter_filter]
    apply List.filter_congr
    intro p _
    simp [Bool.and_comm]

end

/-- The named properties with which a schema is stored are its own. -/
theorem perm_named_keptProperties {schema : IsarSchema} (existing : Option IsarSchema)
    (names : (schema.properties.map PropertySchema.name).Nodup)
    (oldNames : ∀ e, existing = some e → (e.named.map PropertySchema.name).Nodup) :
    ((keptProperties existing schema).filter fun p => p.name.isSome).Perm schema.named := by
  cases existing with
  | none => exact List.Perm.refl _
  | some e =>
    have old := oldNames e rfl
    have added : ((schema.findChanges e).addProperties.filter fun p => p.name.isSome) =
        (schema.findChanges e).addProperties := by
      rw [List.filter_eq_self, IsarSchema.addProperties_eq]
      intro p mem
      rcases List.mem_append.mp mem with again | new
      · exact IsarSchema.isSome_of_mem_named
          ((KeyedDiff.mem_replaced (IsarSchema.nodup_named names)).mp again).1
      · exact IsarSchema.isSome_of_mem_named (KeyedDiff.mem_fresh.mp new).1
    show ((mergedProperties schema e).filter fun p => p.name.isSome).Perm _
    rw [mergedProperties, List.filter_append, named_foldl_dropProperty old, added]
    exact IsarSchema.perm_properties old names

/-! ## Slots -/

/-- The bytes that properties take in the static section. -/
def slotSizes (properties : List PropertySchema) : Nat :=
  (properties.map fun p => p.dataType.staticSize).sum

/-- A slot that ends before another one begins. -/
def Before (p q : String × NativeProperty) : Prop :=
  p.2.offset + p.2.dataType.staticSize ≤ q.2.offset

theorem nativeProperty_eq {schemaNames : List String} {offset : Nat} {p : PropertySchema}
    {q : NativeProperty} (h : nativeProperty schemaNames offset p = some q) :
    q.dataType = p.dataType ∧ q.offset = offset := by
  unfold nativeProperty at h
  split at h
  · obtain ⟨_, -, rfl⟩ := Option.map_eq_some_iff.mp h
    exact ⟨rfl, rfl⟩
  · cases h
    exact ⟨rfl, rfl⟩

/-- What `get_properties` makes of the properties of one kind: their slots follow on each other. -/
structure Slots (offset : Nat) (properties : List PropertySchema)
    (native : List (String × NativeProperty)) : Prop where
  names : native.map (some ∘ Prod.fst) =
    (properties.filter fun p => p.name.isSome).map PropertySchema.name
  types : ∀ e ∈ native, ∃ p ∈ properties, p.name = some e.1 ∧ p.dataType = e.2.dataType
  inside : ∀ e ∈ native, offset ≤ e.2.offset ∧
    e.2.offset + e.2.dataType.staticSize ≤ offset + slotSizes properties
  apart : native.Pairwise Before

theorem getProperties_cons {schemaNames : List String} {offset : Nat} {p : PropertySchema}
    {properties : List PropertySchema} {native : List (String × NativeProperty)}
    (h : getProperties schemaNames offset (p :: properties) = some native) :
    ∃ own, (match p.name with
        | some name => (nativeProperty schemaNames offset p).map fun property => [(name, property)]
        | none => some []) = some own ∧
      ∃ rest, getProperties schemaNames (offset + p.dataType.staticSize) properties = some rest ∧
        native = own ++ rest := by
  unfold getProperties at h
  cases name : p.name with
  | none =>
    simp only [name, Option.bind_eq_bind, Option.bind_eq_some_iff, Option.pure_def,
      Option.some.injEq] at h
    obtain ⟨_, rfl, rest, later, eq⟩ := h
    exact ⟨[], rfl, rest, later, eq.symm⟩
  | some n =>
    simp only [name, Option.bind_eq_bind, Option.bind_eq_some_iff, Option.pure_def,
      Option.some.injEq] at h
    obtain ⟨own, first, rest, later, eq⟩ := h
    exact ⟨own, first, rest, later, eq.symm⟩

theorem slots_of_getProperties {schemaNames : List String} {offset : Nat}
    {properties : List PropertySchema} {native : List (String × NativeProperty)}
    (h : getProperties schemaNames offset properties = some native) :
    Slots offset properties native := by
  induction properties generalizing offset native with
  | nil =>
    cases h
    exact ⟨rfl, by simp, by simp, List.Pairwise.nil⟩
  | cons p properties ih =>
    obtain ⟨own, first, rest, later, rfl⟩ := getProperties_cons h
    have slots := ih later
    have total : slotSizes (p :: properties) = p.dataType.staticSize + slotSizes properties := rfl
    have behind : ∀ e ∈ rest, offset + p.dataType.staticSize ≤ e.2.offset :=
      fun e mem => (slots.inside e mem).1
    cases name : p.name with
    | none =>
      rw [name] at first
      cases first
      refine ⟨?_, fun e mem => ?_, fun e mem => ?_, slots.apart⟩
      · rw [filter_named_neg (by simp [name])]
        exact slots.names
      · obtain ⟨q, memQ, same⟩ := slots.types e mem
        exact ⟨q, List.mem_cons_of_mem _ memQ, same⟩
      · have := slots.inside e mem
        omega
    | some n =>
      rw [name] at first
      obtain ⟨q, native, rfl⟩ := Option.map_eq_some_iff.mp first
      obtain ⟨type, start⟩ := nativeProperty_eq native
      refine ⟨?_, fun e mem => ?_, fun e mem => ?_, ?_⟩
      · rw [filter_named_pos (by simp [name]), List.map_cons, name, ← slots.names]
        rfl
      · rcases List.mem_cons.mp mem with rfl | mem
        · exact ⟨p, List.mem_cons_self, name, type.symm⟩
        · obtain ⟨r, memR, same⟩ := slots.types e mem
          exact ⟨r, List.mem_cons_of_mem _ memR, same⟩
      · rcases List.mem_cons.mp mem with rfl | mem
        · simp only [type, start]
          omega
        · have := slots.inside e mem
          omega
      · refine List.pairwise_cons.mpr ⟨fun e mem => ?_, slots.apart⟩
        have := behind e mem
        unfold Before
        simp only [type, start]
        omega

/-! ## Sorted properties -/

/-- A map that takes back what another one did to each element. -/
theorem map_of_mapM {α β : Type} {f : α → Option β} {g : β → α} {l : List α} {r : List β}
    (h : l.mapM f = some r) (back : ∀ a b, f a = some b → g b = a) : r.map g = l := by
  induction l generalizing r with
  | nil =>
    cases h
    rfl
  | cons a l ih =>
    rw [List.mapM_cons] at h
    obtain ⟨b, first, h⟩ := Option.bind_eq_some_iff.mp h
    obtain ⟨rest, later, eq⟩ := Option.bind_eq_some_iff.mp h
    cases eq
    rw [List.map_cons, back a b first, ih later]

theorem perm_sortProperties {schema : IsarSchema} {properties sorted : List (String × NativeProperty)}
    (h : sortProperties schema properties = some sorted) : sorted.Perm properties := by
  unfold sortProperties at h
  split at h
  · cases h
    exact List.Perm.refl _
  · obtain ⟨keyed, found, eq⟩ := Option.bind_eq_some_iff.mp h
    cases eq
    have same : keyed.map Prod.snd = properties := by
      refine map_of_mapM found fun p key eq => ?_
      obtain ⟨_, -, rfl⟩ := Option.map_eq_some_iff.mp eq
      rfl
    rw [← same]
    exact (List.perm_insertionSort _ keyed).map Prod.snd

/-- The last of the properties with the greatest offset. -/
theorem maxByOffset_spec {properties : List (String × NativeProperty)} :
    match NativeCollection.maxByOffset properties with
    | some p => (∃ name, (name, p) ∈ properties) ∧ ∀ e ∈ properties, e.2.offset ≤ p.offset
    | none => properties = [] := by
  induction properties with
  | nil => rfl
  | cons e properties ih =>
    obtain ⟨name, p⟩ := e
    cases rest : NativeCollection.maxByOffset properties with
    | none =>
      rw [rest] at ih
      subst ih
      simp [NativeCollection.maxByOffset]
    | some q =>
      rw [rest] at ih
      obtain ⟨⟨other, mem⟩, greatest⟩ := ih
      simp only [NativeCollection.maxByOffset, rest]
      by_cases lt : q.offset < p.offset
      · rw [if_pos lt]
        refine ⟨⟨name, List.mem_cons_self⟩, fun e mem' => ?_⟩
        rcases List.mem_cons.mp mem' with rfl | mem'
        · exact le_rfl
        · exact (greatest e mem').trans (Nat.le_of_lt lt)
      · rw [if_neg lt]
        refine ⟨⟨other, List.mem_cons_of_mem _ mem⟩, fun e mem' => ?_⟩
        rcases List.mem_cons.mp mem' with rfl | mem'
        · exact Nat.le_of_not_lt lt
        · exact greatest e mem'

/-- The slots of a new collection. -/
theorem laid_new {index : UInt16} {name : String} {idName : Option String}
    {properties native : List (String × NativeProperty)} {indexes : List NativeIndex}
    {db : Option Db} (apart : native.Pairwise Before) (perm : properties.Perm native) :
    (NativeCollection.new index name idName properties indexes db).Laid := by
  have symm : Std.Symm fun p q => Before p q ∨ Before q p := ⟨fun _ _ h => h.symm⟩
  have either : properties.Pairwise fun p q => Before p q ∨ Before q p :=
    (perm.pairwise_iff (fun h => h.symm)).mpr (apart.imp Or.inl)
  refine ⟨fun e mem => ?_, either⟩
  have greatest := @maxByOffset_spec properties
  show e.2.offset + e.2.dataType.staticSize ≤
    match NativeCollection.maxByOffset properties with
    | some p => p.offset + p.dataType.staticSize
    | none => 0
  cases max : NativeCollection.maxByOffset properties with
  | none =>
    rw [max] at greatest
    subst greatest
    cases mem
  | some p =>
    rw [max] at greatest
    obtain ⟨⟨other, memP⟩, greatest⟩ := greatest
    have le := greatest e mem
    by_cases same : e = (other, p)
    · subst same
      exact le_rfl
    · have positive := p.dataType.staticSize_pos
      rcases either.forall mem memP same with before | before
      · unfold Before at before
        simp only at before ⊢
        omega
      · unfold Before at before
        simp only at before le
        omega

theorem staticSize_new {index : UInt16} {name : String} {idName : Option String}
    {properties : List (String × NativeProperty)} {indexes : List NativeIndex} {db : Option Db}
    {n : Nat} (inside : ∀ e ∈ properties, e.2.offset + e.2.dataType.staticSize ≤ n) :
    (NativeCollection.new index name idName properties indexes db).staticSize ≤ n := by
  have greatest := @maxByOffset_spec properties
  show (match NativeCollection.maxByOffset properties with
    | some p => p.offset + p.dataType.staticSize
    | none => 0) ≤ n
  cases max : NativeCollection.maxByOffset properties with
  | none => exact Nat.zero_le _
  | some p =>
    rw [max] at greatest
    obtain ⟨⟨other, mem⟩, -⟩ := greatest
    exact inside _ mem

/-! ## Indexes -/

/-- The indexes of a collection are made of its own properties, of types that have a key. -/
def NativeCollection.Keyed (c : NativeCollection) : Prop :=
  ∀ index ∈ c.indexes, ∀ p ∈ index.properties, (∃ name, (name, p) ∈ c.properties) ∧
    p.dataType ≠ .object ∧ p.dataType ≠ .json ∧ p.dataType.elementType = none

theorem isSome_mapM {α β : Type} {f : α → Option β} {l : List α} (h : ∀ a ∈ l, (f a).isSome) :
    (l.mapM f).isSome := by
  induction l with
  | nil => rfl
  | cons a l ih =>
    obtain ⟨b, first⟩ := Option.isSome_iff_exists.mp (h a List.mem_cons_self)
    obtain ⟨r, rest⟩ := Option.isSome_iff_exists.mp
      (ih fun a mem => h a (List.mem_cons_of_mem _ mem))
    simp [List.mapM_cons, first, rest]

theorem mem_of_lookup {properties : List (String × NativeProperty)} {name : String}
    {p : NativeProperty} (h : properties.lookup name = some p) : (name, p) ∈ properties := by
  obtain ⟨before, after, rfl, -⟩ := List.lookup_eq_some_iff.mp h
  simp

/-- An opened index takes its properties from the collection. -/
theorem properties_of_openIndexes {refused : TxnFaults} {colName : String}
    {properties : List (String × NativeProperty)} {s s' : Storage} {indexes : List IndexSchema}
    {opened : List NativeIndex}
    (h : openIndexes refused colName properties s indexes = .ok (s', opened)) :
    ∀ native ∈ opened, ∃ index ∈ indexes, ∀ p ∈ native.properties,
      ∃ name ∈ index.properties, (name, p) ∈ properties := by
  induction indexes generalizing s opened with
  | nil =>
    cases pure_eq_ok.mp h
    simp
  | cons index indexes ih =>
    obtain ⟨⟨s₁, db⟩, first, h⟩ := bind_eq_ok.mp h
    obtain ⟨own, found, h⟩ := bind_eq_ok.mp h
    obtain ⟨⟨s₂, rest⟩, others, h⟩ := bind_eq_ok.mp h
    cases pure_eq_ok.mp h
    intro native mem
    rcases List.mem_cons.mp mem with rfl | mem
    · refine ⟨index, List.mem_cons_self, fun p memP => ?_⟩
      obtain ⟨name, memN, lookup⟩ := mem_of_mapM (orPanic_eq_ok.mp found) p memP
      exact ⟨name, memN, mem_of_lookup lookup⟩
    · obtain ⟨index', mem', made⟩ := ih others native mem
      exact ⟨index', List.mem_cons_of_mem _ mem', made⟩

/-- What a migration makes of a verified schema. -/
structure Opened (schema : IsarSchema) (col : NativeCollection) : Prop where
  name : col.name = schema.name
  laid : col.Laid
  names : (col.properties.map (some ∘ Prod.fst)).Perm (schema.named.map PropertySchema.name)
  types : ∀ e ∈ col.properties, ∃ p ∈ schema.properties, p.name = some e.1 ∧
    p.dataType = e.2.dataType
  indexes : col.indexes.map NativeIndex.db = schema.indexes.map fun index =>
    indexDb schema.name index.name
  keys : ∀ native ∈ col.indexes, ∃ index ∈ schema.indexes, ∀ p ∈ native.properties,
    ∃ name ∈ index.properties, (name, p) ∈ col.properties

theorem opened_of_migrateSchema {refused : TxnFaults} {existingSchemas : List IsarSchema}
    {schemaNames : List String} {collectionIndex : Nat} {s s' : Storage} {schema : IsarSchema}
    {col : NativeCollection × Int64}
    (names : (schema.properties.map PropertySchema.name).Nodup)
    (oldNames : ∀ e ∈ existingSchemas, (e.named.map PropertySchema.name).Nodup)
    (h : migrateSchema refused existingSchemas schemaNames collectionIndex s schema =
      .ok (s', col)) : Opened schema col.1 := by
  have db := openedFor_of_migrateSchema h
  obtain ⟨_, -, h⟩ := bind_eq_ok.mp h
  obtain ⟨⟨s₁, merged⟩, migrated, h⟩ := bind_eq_ok.mp h
  obtain ⟨unsorted, native, h⟩ := bind_eq_ok.mp h
  obtain ⟨properties, sorted, h⟩ := bind_eq_ok.mp h
  obtain ⟨_, -, h⟩ := bind_eq_ok.mp h
  obtain ⟨⟨s₂, primary⟩, -, h⟩ := bind_eq_ok.mp h
  obtain ⟨⟨s₃, indexes⟩, secondary, h⟩ := bind_eq_ok.mp h
  obtain ⟨counter, -, h⟩ := bind_eq_ok.mp h
  obtain ⟨_, -, h⟩ := bind_eq_ok.mp h
  cases pure_eq_ok.mp h
  obtain ⟨-, rfl⟩ := leaves_migrateProperties migrated
  have slots := slots_of_getProperties (orPanic_eq_ok.mp native)
  have perm := perm_sortProperties (orPanic_eq_ok.mp sorted)
  have named := perm_named_keptProperties (existingSchemas.find? fun c =>
    c.name == schema.name) names fun e found => oldNames e (List.mem_of_find?_eq_some found)
  refine ⟨rfl, laid_new slots.apart perm, ?_, fun e mem => ?_, db.indexes,
    properties_of_openIndexes secondary⟩
  · refine (perm.map _).trans ?_
    rw [slots.names]
    exact named.map _
  · obtain ⟨p, memP, name, type⟩ := slots.types e (perm.subset mem)
    have kept : p ∈ schema.named := named.subset (List.mem_filter.mpr ⟨memP, by simp [name]⟩)
    exact ⟨p, (List.mem_filter.mp kept).1, name, type⟩

theorem opened_of_migrateSchemas {refused : Faults} {existingSchemas : List IsarSchema}
    {schemaNames : List String} {n : Nat} {s s' : Storage} {schemas all : List IsarSchema}
    {before cols : List (NativeCollection × Int64)} (sub : ∀ c ∈ schemas, c ∈ all)
    (names : ∀ c ∈ all, (c.properties.map PropertySchema.name).Nodup)
    (oldNames : ∀ e ∈ existingSchemas, (e.named.map PropertySchema.name).Nodup)
    (opened : ∀ col ∈ before, ∃ c ∈ all, Opened c col.1)
    (h : migrateSchemas refused existingSchemas schemaNames n s before schemas =
      (s', .ok cols)) : ∀ col ∈ cols, ∃ c ∈ all, Opened c col.1 := by
  induction schemas generalizing n s before with
  | nil =>
    cases h
    exact opened
  | cons c schemas ih =>
    unfold migrateSchemas at h
    cases turn : migrateSchema (refused n) existingSchemas schemaNames before.length s c with
    | error e =>
      rw [turn] at h
      cases h
    | ok result =>
      rw [turn] at h
      obtain ⟨s₁, col⟩ := result
      have mem := sub c List.mem_cons_self
      refine ih (fun c mem => sub c (List.mem_cons_of_mem _ mem)) ?_ h
      intro col' mem'
      rcases List.mem_append.mp mem' with mem' | mem'
      · exact opened col' mem'
      · rw [List.mem_singleton.mp mem']
        exact ⟨c, mem, opened_of_migrateSchema (names c mem) oldNames turn⟩

/-! ## New collections -/

/-- The properties of new collections are opened in a row. -/
theorem isSome_getProperties (schemaNames : List String) {properties : List PropertySchema}
    (scalar : ∀ p ∈ properties, p.collection = none) (offset : Nat) :
    (getProperties schemaNames offset properties).isSome := by
  induction properties generalizing offset with
  | nil => rfl
  | cons p properties ih =>
    obtain ⟨rest, later⟩ := Option.isSome_iff_exists.mp
      (ih (fun p mem => scalar p (List.mem_cons_of_mem _ mem)) (offset + p.dataType.staticSize))
    have native : nativeProperty schemaNames offset p = some ⟨p.dataType, offset, none⟩ := by
      rw [nativeProperty, scalar p List.mem_cons_self]
    cases name : p.name <;>
      simp only [getProperties, later, name, native, Option.map_some, Option.bind_eq_bind,
        Option.bind_some, Option.pure_def, Option.isSome_some]

theorem isSome_sortProperties {schema : IsarSchema} {properties : List (String × NativeProperty)}
    (known : ∀ e ∈ properties, some e.1 ∈ schema.properties.map PropertySchema.name) :
    (sortProperties schema properties).isSome := by
  unfold sortProperties
  split
  · rfl
  · have found : (properties.mapM fun p =>
        (schema.properties.findIdx? fun q => q.name == some p.1).map
          fun position => (position, p)).isSome := by
      refine isSome_mapM fun e mem => ?_
      obtain ⟨q, memQ, name⟩ := List.mem_map.mp (known e mem)
      rw [Option.isSome_map, List.findIdx?_isSome, List.any_eq_true]
      exact ⟨q, memQ, by simp [name]⟩
    obtain ⟨keyed, eq⟩ := Option.isSome_iff_exists.mp found
    simp only [eq, Option.bind_eq_bind, Option.bind_some, Option.pure_def, Option.isSome_some]

/-- The first opening of a collection without indexes. -/
theorem performMigration_new {schema : IsarSchema}
    {unsorted properties : List (String × NativeProperty)}
    (native : getProperties [schema.name] 0 schema.properties = some unsorted)
    (sorted : sortProperties schema unsorted = some properties) (stored : schema.embedded = false)
    (indexes : schema.indexes = []) (hasId : schema.idName.isSome) : ∃ s counter,
    performMigration noFaults [schema] Database.new.storage =
      (s, .ok [(.new 0 schema.name schema.idName properties [] (some schema.name), counter)]) := by
  have first : readSchemas (noFaults 0) Database.new.storage = .ok [] := rfl
  obtain ⟨s, counter, turn⟩ : ∃ s counter,
      migrateSchema (noFaults 1) [] [schema.name] 0 Database.new.storage schema =
        .ok (s, .new 0 schema.name schema.idName properties [] (some schema.name), counter) := by
    obtain ⟨id, named⟩ := Option.isSome_iff_exists.mp hasId
    let s := (Database.new.storage.putSchema (savedSchema schema schema.properties)).openPrimary
      schema.name
    refine ⟨s, initAutoIncrement (s.objects schema.name), ?_⟩
    simp only [migrateSchema, attempt, noFaults, migrateProperties, List.find?_nil, native, orPanic,
      sorted, openCollectionDb, stored, openDb, indexes, openIndexes, openCounter, bind,
      Except.bind, pure, Except.pure, Except.map, Bool.false_eq_true, if_false,
      NativeCollection.isEmbedded, NativeCollection.new, named, Option.isNone_some,
      NativeCollection.cursorDb]
    rfl
  refine ⟨s, counter, ?_⟩
  simp only [performMigration, first, List.map_cons, List.map_nil, migrateSchemas,
    List.length_nil, turn, List.nil_append]
  rfl

/-! ## Databases -/

theorem nodup_named_savedSchema {schema : IsarSchema} {existing : Option IsarSchema}
    (names : (schema.properties.map PropertySchema.name).Nodup)
    (oldNames : ∀ e, existing = some e → (e.named.map PropertySchema.name).Nodup) :
    ((savedSchema schema (keptProperties existing schema)).named.map PropertySchema.name).Nodup :=
  ((perm_named_keptProperties _ names oldNames).map _).nodup_iff.mpr (IsarSchema.nodup_named names)

/-- The stored schemas have properties of different names. -/
def Storage.NamesApart (s : Storage) : Prop :=
  ∀ name e, s.info.find name = some e → (e.named.map PropertySchema.name).Nodup

/-- A migration keeps the names of stored properties apart, and opens its schemas. -/
theorem opened_of_performMigration {refused : Faults} {schemas : List IsarSchema}
    {s s' : Storage} {r : Result (List (NativeCollection × Int64))}
    (verified : IsarSchema.verifySchemas schemas = .ok ()) (apart : s.NamesApart)
    (h : performMigration refused schemas s = (s', r)) :
    s'.NamesApart ∧ ∀ cols, r = .ok cols → ∀ col ∈ cols, ∃ c ∈ schemas, Opened c col.1 := by
  have names (c : IsarSchema) (mem : c ∈ schemas) :
      (c.properties.map PropertySchema.name).Nodup :=
    (IsarSchema.verified_of_verifySchemas verified c mem).properties
  obtain ⟨done, rest, s₁, split, committed, ends⟩ := committed_of_performMigration h
  have apart₁ : s₁.NamesApart := by
    intro name e stored
    rw [committed.info] at stored
    cases found : lastNamed done name with
    | none =>
      rw [found] at stored
      exact apart name e stored
    | some c =>
      rw [found] at stored
      cases stored
      have mem : c ∈ schemas := by
        rw [split]
        exact List.mem_append_left _ (lastNamed_eq_some found).1
      exact nodup_named_savedSchema (names c mem) fun e stored => apart name e stored
  rcases ends with ⟨rfl, e, rfl⟩ | ⟨rfl, removed, cols, rfl, loop⟩
  · refine ⟨apart₁, ?_⟩
    rintro cols ⟨⟩
  · refine ⟨fun name e stored => ?_, ?_⟩
    · rw [removed.info] at stored
      split at stored
      · cases stored
      · exact apart₁ name e stored
    · rintro _ ⟨⟩
      refine opened_of_migrateSchemas (fun _ mem => mem) names (fun e mem => ?_) (by simp) loop
      exact apart e.name e (Storage.find_info_of_mem mem)

/-- The collections of a database are opened from verified schemas. -/
structure Database.Laid (d : Database) : Prop where
  stored : d.storage.NamesApart
  opened : ∀ col ∈ d.collections, ∃ schemas, IsarSchema.verifySchemas schemas = .ok () ∧
    ∃ c ∈ schemas, Opened c col

namespace Database.Laid

variable {xxh3_64 : Bytes → UInt64} {d d' : Database} {event : Event}

theorem new : Database.new.Laid where
  stored := by
    rintro name e ⟨⟩
  opened := by
    rintro col ⟨⟩

theorem step (laid : d.Laid) (h : Database.Step xxh3_64 d event d') : d'.Laid := by
  cases h with
  | commit opened done => exact ⟨laid.stored, laid.opened⟩
  | abort => exact laid
  | migrate verified names done =>
    obtain ⟨stored, opened⟩ := opened_of_performMigration verified laid.stored done
    refine ⟨stored, fun col listed => ?_⟩
    obtain ⟨entry, mem, rfl⟩ := List.mem_map.mp listed
    exact ⟨_, verified, opened _ rfl entry mem⟩
  | fail verified names failed =>
    obtain ⟨stored, -⟩ := opened_of_performMigration verified laid.stored failed
    refine ⟨stored, ?_⟩
    rintro col ⟨⟩

theorem run {events : List Event} (h : Run (Database.Step xxh3_64) Database.new events d) :
    d.Laid := h.invariant (fun _ _ _ laid one => laid.step one) new

end Database.Laid

/-- A verified schema has its indexed properties, of types for which a key can be made. -/
theorem property_of_verify {schema : IsarSchema} {collections : List IsarSchema}
    (h : schema.verify collections = .ok ()) {index : IndexSchema} (memI : index ∈ schema.indexes)
    {name : String} (memN : name ∈ index.properties) :
    ∃ p, schema.property name = some p ∧ p.dataType ≠ .object ∧ p.dataType ≠ .json ∧
      p.dataType.elementType = none := by
  obtain ⟨_, -, h⟩ := bind_eq_ok.mp h
  obtain ⟨_, -, h⟩ := bind_eq_ok.mp h
  obtain ⟨_, -, h⟩ := bind_eq_ok.mp h
  obtain ⟨_, -, h⟩ := bind_eq_ok.mp h
  obtain ⟨_, -, h⟩ := bind_eq_ok.mp h
  have checked := IsarSchema.forM_eq_ok h index memI
  unfold IsarSchema.verifyIndex at checked
  obtain ⟨-, checked⟩ := IsarSchema.check_eq_ok checked
  have own := IsarSchema.forM_eq_ok checked name memN
  unfold IsarSchema.verifyIndexProperty at own
  cases found : schema.property name with
  | none =>
    rw [found] at own
    exact absurd own IsarSchema.schemaError_ne_ok
  | some p =>
    simp only [found] at own
    obtain ⟨-, own⟩ := IsarSchema.check_eq_ok own
    obtain ⟨object, own⟩ := IsarSchema.check_eq_ok own
    obtain ⟨json, own⟩ := IsarSchema.check_eq_ok own
    obtain ⟨list, -⟩ := IsarSchema.check_eq_ok own
    refine ⟨p, rfl, object, json, ?_⟩
    simpa [DataType.isList] using list

/-- The properties of indexes have types for which a key can be made. -/
theorem Opened.keyed {schemas : List IsarSchema} {c : IsarSchema} {col : NativeCollection}
    (verified : IsarSchema.verifySchemas schemas = .ok ()) (mem : c ∈ schemas)
    (opened : Opened c col) : col.Keyed := by
  intro native listed p memP
  obtain ⟨index, memI, made⟩ := opened.keys native listed
  obtain ⟨name, memN, own⟩ := made p memP
  refine ⟨⟨name, own⟩, ?_⟩
  obtain ⟨q, memQ, named, type⟩ := opened.types (name, p) own
  have verify := IsarSchema.forM_eq_ok verified c mem
  obtain ⟨q', found, allowed⟩ := property_of_verify verify memI memN
  have named' : q'.name = some name := by simpa using List.find?_some found
  have names := (IsarSchema.verified_of_verify verify).properties
  have same := List.inj_on_of_nodup_map names (List.mem_of_find?_eq_some found) memQ
    (named'.trans named.symm)
  rwa [same, type] at allowed

theorem Opened.nodup_db {schemas : List IsarSchema} {c : IsarSchema} {col : NativeCollection}
    (verified : IsarSchema.verifySchemas schemas = .ok ()) (mem : c ∈ schemas)
    (opened : Opened c col) : (col.indexes.map NativeIndex.db).Nodup := by
  have indexes := (IsarSchema.verified_of_verifySchemas verified c mem).indexes
  rw [opened.indexes]
  have comp : (c.indexes.map fun index => indexDb c.name index.name) =
      (c.indexes.map IndexSchema.name).map (indexDb c.name) := by
    rw [List.map_map]
    rfl
  rw [comp]
  exact indexes.map (indexDb_injective c.name)

theorem Database.Laid.collection {d : Database} {col : NativeCollection} (laid : d.Laid)
    (mem : col ∈ d.collections) : col.Laid := by
  obtain ⟨_, -, _, -, opened⟩ := laid.opened col mem
  exact opened.laid

theorem Database.Laid.keyed {d : Database} {col : NativeCollection} (laid : d.Laid)
    (mem : col ∈ d.collections) : col.Keyed := by
  obtain ⟨_, verified, _, listed, opened⟩ := laid.opened col mem
  exact opened.keyed verified listed

end IsarPlus.Native
