import IsarPlus.Core.SchemaChanges

/-!
# Changes of schemas

The four lists of `find_changes` are put together by passes with conditions of their own, and both
engines carry them out as they stand. Here they are compared with the two schemas: which
properties and indexes are on them, and what is there once they are carried out.
-/

namespace IsarPlus.IsarSchema

open KeyedDiff

/-- The names of a schema are unique, and its indexes are on properties that it has. -/
structure WellNamed (schema : IsarSchema) : Prop where
  properties : (schema.named.map PropertySchema.name).Nodup
  indexes : (schema.indexes.map IndexSchema.name).Nodup
  covered : ∀ i ∈ schema.indexes, ∀ name ∈ i.properties,
    some name ∈ schema.properties.map PropertySchema.name

/-- What the drops leave. -/
def afterDrops (old : IsarSchema) (changes : Changes) : IsarSchema :=
  { old with
    properties := old.properties.filter fun p => p.name ∉ changes.dropProperties.map some
    indexes := old.indexes.filter fun i => i.name ∉ changes.dropIndexes }

/-- The schema once the changes are carried out. -/
def applied (old : IsarSchema) (changes : Changes) : IsarSchema :=
  { old.afterDrops changes with
    properties := (old.afterDrops changes).properties ++ changes.addProperties
    indexes := (old.afterDrops changes).indexes ++ changes.addIndexes }

/-- Both schemas have a property of the name, with another type or target. -/
def Retyped (schema old : IsarSchema) (name : String) : Prop :=
  ∃ p ∈ old.properties, ∃ q ∈ schema.properties,
    p.name = some name ∧ q.name = some name ∧ p ≠ q

variable {schema old : IsarSchema}

theorem mem_named {p : PropertySchema} {name : String} (mem : p ∈ schema.properties)
    (eq : p.name = some name) : p ∈ schema.named :=
  List.mem_filter.mpr ⟨mem, by rw [eq]; rfl⟩

theorem WellNamed.property_of_index (wellNamed : schema.WellNamed) {i : IndexSchema}
    (mem : i ∈ schema.indexes) {name : String} (on : name ∈ i.properties) :
    ∃ p ∈ schema.named, p.name = some name := by
  obtain ⟨p, there, eq⟩ := List.mem_map.mp (wellNamed.covered i mem name on)
  exact ⟨p, mem_named there eq, eq⟩

/-! ## Properties -/

section
variable (names : (schema.named.map PropertySchema.name).Nodup)
include names

theorem staysProperty_iff {p : PropertySchema} (mem : p ∈ old.named) :
    schema.staysProperty p = true ↔ p ∈ schema.named := by
  constructor
  · intro stays
    exact mem_of_staysProperty mem stays
  · intro there
    exact staysProperty_of_mem names there

/-- A name is dropped if the old property of that name is not one of the schema. -/
theorem mem_dropProperties {name : String} :
    name ∈ (schema.findChanges old).dropProperties ↔
      ∃ p ∈ old.named, p.name = some name ∧ p ∉ schema.named := by
  have inject : name ∈ (schema.findChanges old).dropProperties ↔
      some name ∈ (schema.findChanges old).dropProperties.map some := by simp
  rw [inject, map_dropProperties, mem_dropped]
  apply exists_congr
  intro p
  apply and_congr_right
  intro mem
  rw [← Bool.not_eq_true, staysProperty_iff names mem]
  exact and_comm

/-- The properties that are added are those that the old schema does not have. -/
theorem mem_addProperties (oldNames : (old.named.map PropertySchema.name).Nodup)
    {p : PropertySchema} :
    p ∈ (schema.findChanges old).addProperties ↔ p ∈ schema.named ∧ p ∉ old.named := by
  rw [addProperties_eq, List.mem_append, mem_replaced names, mem_fresh, ← and_or_left]
  apply and_congr_right
  intro mem
  constructor
  · intro added there
    rcases added with ⟨q, old', leaves, same⟩ | missing
    · rw [List.inj_on_of_nodup_map oldNames old' there same, staysProperty_of_mem names mem]
        at leaves
      cases leaves
    · exact missing p there rfl
  · intro absent
    by_cases there : ∃ q ∈ old.named, q.name = p.name
    · obtain ⟨q, old', same⟩ := there
      refine Or.inl ⟨q, old', ?_, same⟩
      rw [← Bool.not_eq_true, staysProperty_iff names old']
      intro new
      exact absent (List.inj_on_of_nodup_map names new mem same ▸ old')
    · right
      intro q old' same
      exact there ⟨q, old', same⟩

/-- A property that both schemas name is dropped exactly if it is retyped. -/
theorem mem_dropProperties_iff_retyped {name : String}
    (new : ∃ q ∈ schema.named, q.name = some name) :
    name ∈ (schema.findChanges old).dropProperties ↔ schema.Retyped old name := by
  rw [mem_dropProperties names]
  obtain ⟨q, newMem, newName⟩ := new
  constructor
  · intro ⟨p, mem, eq, absent⟩
    refine ⟨p, List.mem_of_mem_filter mem, q, List.mem_of_mem_filter newMem, eq, newName, ?_⟩
    intro same
    exact absent (same ▸ newMem)
  · intro ⟨p, mem, q', mem', eq, eq', differ⟩
    refine ⟨p, mem_named mem eq, eq, ?_⟩
    intro there
    exact differ (List.inj_on_of_nodup_map names there (mem_named mem' eq') (eq.trans eq'.symm))

end

/-! ## Indexes -/

section
variable (names : (schema.indexes.map IndexSchema.name).Nodup)
include names

theorem staysIndex_iff {i : IndexSchema} : schema.staysIndex old i = true ↔
    i ∈ schema.indexes ∧
      ∀ name ∈ i.properties, name ∉ (schema.findChanges old).dropProperties := by
  constructor
  · intro stays
    have mem := mem_of_staysIndex stays
    exact ⟨mem, (staysIndex_iff_of_mem names mem).mp stays⟩
  · intro ⟨mem, kept⟩
    exact (staysIndex_iff_of_mem names mem).mpr kept

/-- An index is dropped if the schema does not have it or one of its properties is dropped. -/
theorem mem_dropIndexes {name : String} : name ∈ (schema.findChanges old).dropIndexes ↔
    ∃ i ∈ old.indexes, i.name = name ∧ (i ∈ schema.indexes →
      ∃ p ∈ i.properties, p ∈ (schema.findChanges old).dropProperties) := by
  rw [dropIndexes_eq, mem_dropped]
  apply exists_congr
  intro i
  rw [← Bool.not_eq_true, staysIndex_iff names]
  push Not
  apply and_congr_right
  intro _
  exact and_comm

/-- An index is added if the old schema does not have it or one of its properties is dropped. -/
theorem mem_addIndexes (oldNames : (old.indexes.map IndexSchema.name).Nodup) {i : IndexSchema} :
    i ∈ (schema.findChanges old).addIndexes ↔ i ∈ schema.indexes ∧ (i ∈ old.indexes →
      ∃ p ∈ i.properties, p ∈ (schema.findChanges old).dropProperties) := by
  rw [addIndexes_eq, List.mem_append, mem_replaced names, mem_fresh, ← and_or_left]
  apply and_congr_right
  intro mem
  constructor
  · intro added there
    rcases added with ⟨j, old', leaves, same⟩ | missing
    · rw [List.inj_on_of_nodup_map oldNames old' there same, ← Bool.not_eq_true,
        staysIndex_iff_of_mem names mem] at leaves
      push Not at leaves
      exact leaves
    · exact absurd rfl (missing i there)
  · intro changed
    by_cases there : ∃ j ∈ old.indexes, j.name = i.name
    · obtain ⟨j, old', same⟩ := there
      refine Or.inl ⟨j, old', ?_, same⟩
      rw [← Bool.not_eq_true, staysIndex_iff names]
      intro ⟨new, kept⟩
      have eq := List.inj_on_of_nodup_map names new mem same
      obtain ⟨p, on, dropped⟩ := changed (eq ▸ old')
      exact kept p (eq ▸ on) dropped
    · right
      intro j old' same
      exact there ⟨j, old', same⟩

end

/-! ## The changes as a whole -/

/-- The changes lead from the old schema to the new one, and touch nothing without need. -/
structure ExactChanges (schema old : IsarSchema) (changes : Changes) : Prop where
  properties : (old.applied changes).named.Perm schema.named
  indexes : (old.applied changes).indexes.Perm schema.indexes
  sameProperties : ∀ p ∈ old.named, p ∈ schema.named →
    p.name ∉ changes.dropProperties.map some ∧ p ∉ changes.addProperties
  sameIndexes : ∀ i ∈ old.indexes, i ∈ schema.indexes →
    (i.name ∈ changes.dropIndexes ↔ ∃ name ∈ i.properties, schema.Retyped old name) ∧
    (i ∈ changes.addIndexes ↔ ∃ name ∈ i.properties, schema.Retyped old name)
  freshProperties : ∀ p ∈ changes.addProperties,
    p.name ∉ (old.afterDrops changes).properties.map PropertySchema.name
  freshIndexes : ∀ i ∈ changes.addIndexes,
    i.name ∉ (old.afterDrops changes).indexes.map IndexSchema.name
  keptIndexes : ∀ i ∈ (old.afterDrops changes).indexes, ∀ name ∈ i.properties,
    name ∉ changes.dropProperties ∧ some name ∉ changes.addProperties.map PropertySchema.name ∧
      ¬ schema.Retyped old name

section
variable (wellNamed : schema.WellNamed) (oldWellNamed : old.WellNamed)
include wellNamed oldWellNamed

theorem named_applied : (old.applied (schema.findChanges old)).named.Perm schema.named := by
  have perm := perm_named oldWellNamed.properties wellNamed.properties
  have added : (schema.findChanges old).addProperties.filter (fun p => p.name.isSome) =
      (schema.findChanges old).addProperties := by
    apply List.filter_eq_self.mpr
    intro p mem
    exact isSome_of_mem_named
      ((mem_addProperties wellNamed.properties oldWellNamed.properties).mp mem).1
  have kept : (old.afterDrops (schema.findChanges old)).named =
      old.named.filter fun p => p.name ∉ (schema.findChanges old).dropProperties.map some :=
    List.filter_comm _ _ _
  have split : (old.applied (schema.findChanges old)).named =
      (old.afterDrops (schema.findChanges old)).named ++
        (schema.findChanges old).addProperties.filter fun p => p.name.isSome :=
    List.filter_append _ _
  rw [split, added, kept]
  exact perm

omit oldWellNamed in
/-- An index of both schemas has a property that is dropped exactly if one is retyped. -/
theorem dropped_iff_retyped {i : IndexSchema} (mem : i ∈ schema.indexes) :
    (∃ name ∈ i.properties, name ∈ (schema.findChanges old).dropProperties) ↔
      ∃ name ∈ i.properties, schema.Retyped old name := by
  apply exists_congr
  intro name
  apply and_congr_right
  intro on
  exact mem_dropProperties_iff_retyped wellNamed.properties (wellNamed.property_of_index mem on)

theorem same_indexes {i : IndexSchema} (old' : i ∈ old.indexes) (mem : i ∈ schema.indexes) :
    (i.name ∈ (schema.findChanges old).dropIndexes ↔
      ∃ name ∈ i.properties, schema.Retyped old name) ∧
    (i ∈ (schema.findChanges old).addIndexes ↔
      ∃ name ∈ i.properties, schema.Retyped old name) := by
  rw [mem_dropIndexes wellNamed.indexes,
    mem_addIndexes wellNamed.indexes oldWellNamed.indexes,
    ← dropped_iff_retyped wellNamed mem]
  constructor
  · constructor
    · intro ⟨j, there, same, changed⟩
      have eq := List.inj_on_of_nodup_map oldWellNamed.indexes there old' same
      rw [eq] at changed
      exact changed mem
    · intro changed
      exact ⟨i, old', rfl, fun _ => changed⟩
  · constructor
    · intro ⟨_, changed⟩
      exact changed old'
    · intro changed
      exact ⟨mem, fun _ => changed⟩

theorem fresh_properties {p : PropertySchema}
    (mem : p ∈ (schema.findChanges old).addProperties) :
    p.name ∉ (old.afterDrops (schema.findChanges old)).properties.map PropertySchema.name := by
  obtain ⟨new, absent⟩ := (mem_addProperties wellNamed.properties oldWellNamed.properties).mp mem
  intro there
  obtain ⟨q, kept, same⟩ := List.mem_map.mp there
  obtain ⟨old', stays⟩ := List.mem_filter.mp kept
  obtain ⟨name, eq⟩ := Option.isSome_iff_exists.mp (isSome_of_mem_named new)
  have nameQ : q.name = some name := same.trans eq
  rw [decide_eq_true_iff, nameQ, List.mem_map_of_injective (Option.some_injective _),
    mem_dropProperties wellNamed.properties] at stays
  apply stays
  refine ⟨q, mem_named old' nameQ, nameQ, ?_⟩
  intro new'
  have eqP := List.inj_on_of_nodup_map wellNamed.properties new' new same
  exact absent (eqP ▸ mem_named old' nameQ)

theorem fresh_indexes {i : IndexSchema} (mem : i ∈ (schema.findChanges old).addIndexes) :
    i.name ∉ (old.afterDrops (schema.findChanges old)).indexes.map IndexSchema.name := by
  obtain ⟨new, changed⟩ :=
    (mem_addIndexes wellNamed.indexes oldWellNamed.indexes).mp mem
  intro there
  obtain ⟨j, kept, same⟩ := List.mem_map.mp there
  obtain ⟨old', stays⟩ := List.mem_filter.mp kept
  rw [decide_eq_true_iff, mem_dropIndexes wellNamed.indexes] at stays
  apply stays
  refine ⟨j, old', rfl, ?_⟩
  intro new'
  have eq := List.inj_on_of_nodup_map wellNamed.indexes new' new same
  rw [eq] at old' ⊢
  exact changed old'

/-- An index that is kept is on properties that neither list of changes names. -/
theorem kept_indexes {i : IndexSchema}
    (mem : i ∈ (old.afterDrops (schema.findChanges old)).indexes) {name : String}
    (on : name ∈ i.properties) : name ∉ (schema.findChanges old).dropProperties ∧
      some name ∉ (schema.findChanges old).addProperties.map PropertySchema.name ∧
      ¬ schema.Retyped old name := by
  obtain ⟨old', stays⟩ := List.mem_filter.mp mem
  rw [decide_eq_true_iff, mem_dropIndexes wellNamed.indexes] at stays
  have kept : i ∈ schema.indexes ∧
      ∀ p ∈ i.properties, p ∉ (schema.findChanges old).dropProperties := by
    by_contra changed
    apply stays
    refine ⟨i, old', rfl, ?_⟩
    intro new
    by_contra none
    exact changed ⟨new, fun p on' dropped => none ⟨p, on', dropped⟩⟩
  have notDropped := kept.2 name on
  refine ⟨notDropped, ?_, ?_⟩
  · intro added
    obtain ⟨q, add, eq⟩ := List.mem_map.mp added
    obtain ⟨new, absent⟩ :=
      (mem_addProperties wellNamed.properties oldWellNamed.properties).mp add
    -- The old property of the name is still in the new schema, so it is the one that is added.
    obtain ⟨p, there, eqP⟩ := oldWellNamed.property_of_index old' on
    rw [mem_dropProperties wellNamed.properties] at notDropped
    have new' : p ∈ schema.named := by
      by_contra gone
      exact notDropped ⟨p, there, eqP, gone⟩
    have same := List.inj_on_of_nodup_map wellNamed.properties new' new (eqP.trans eq.symm)
    exact absent (same ▸ there)
  · rw [← mem_dropProperties_iff_retyped wellNamed.properties
      (wellNamed.property_of_index kept.1 on)]
    exact notDropped

/-- Carrying out the changes gives the properties and indexes of the new schema. What both schemas
have is left alone, but for the indexes on a property that is retyped: these are dropped and
created again. -/
theorem findChanges_exact : ExactChanges schema old (schema.findChanges old) where
  properties := named_applied wellNamed oldWellNamed
  indexes := perm_indexes oldWellNamed.indexes wellNamed.indexes
  sameProperties p old' new := by
    constructor
    · intro dropped
      obtain ⟨name, mem, eq⟩ := List.mem_map.mp dropped
      obtain ⟨q, there, eqQ, absent⟩ := (mem_dropProperties wellNamed.properties).mp mem
      have same := List.inj_on_of_nodup_map oldWellNamed.properties there old' (eqQ.trans eq)
      exact absent (same ▸ new)
    · intro added
      exact ((mem_addProperties wellNamed.properties oldWellNamed.properties).mp added).2 old'
  sameIndexes i old' new := same_indexes wellNamed oldWellNamed old' new
  freshProperties p mem := fresh_properties wellNamed oldWellNamed mem
  freshIndexes i mem := fresh_indexes wellNamed oldWellNamed mem
  keptIndexes i mem name on := kept_indexes wellNamed oldWellNamed mem on

end

/-- A collection of people with an index on their age. -/
def people (age : DataType) : IsarSchema where
  name := "Person"
  idName := some "id"
  embedded := false
  properties := [⟨none, .bool, none⟩, ⟨some "age", age, none⟩, ⟨some "name", .string, none⟩]
  indexes := [⟨"age", ["age"], false, true⟩, ⟨"name", ["name"], false, true⟩]
  version := 0

theorem wellNamed_people (age : DataType) : (people age).WellNamed where
  properties := by
    show [some "age", some "name"].Nodup
    decide
  indexes := by
    show ["age", "name"].Nodup
    decide
  covered := by
    show ∀ i ∈ (people age).indexes, ∀ name ∈ i.properties,
      some name ∈ [none, some "age", some "name"]
    simp [people]

theorem findChanges_people : (people .int).WellNamed ∧ (people .string).WellNamed ∧
    ExactChanges (people .string) (people .int) ((people .string).findChanges (people .int)) :=
  ⟨wellNamed_people .int, wellNamed_people .string,
    findChanges_exact (wellNamed_people .string) (wellNamed_people .int)⟩

/-- An index that is the same in both schemas is dropped and created again. -/
theorem retyped_index_recreated : ¬ ∀ schema old : IsarSchema, schema.WellNamed → old.WellNamed →
    ∀ i ∈ old.indexes, i ∈ schema.indexes →
      i.name ∉ (schema.findChanges old).dropIndexes ∧ i ∉ (schema.findChanges old).addIndexes := by
  intro claimed
  have kept := claimed (people .string) (people .int) (wellNamed_people .string)
    (wellNamed_people .int) ⟨"age", ["age"], false, true⟩ (by decide) (by decide)
  exact absurd kept.1 (by decide)

end IsarPlus.IsarSchema
