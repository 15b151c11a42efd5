import IsarPlus.Core.Schema
import IsarPlus.Lib.KeyedDiff

/-!
# Applying changes

Dropping and adding what `find_changes` says turns the properties and indexes of the old schema into
those of the new one, up to their order, and it says nothing if they are the same already.
-/

namespace IsarPlus.IsarSchema
open KeyedDiff

/-- The properties that have a name. -/
def named (schema : IsarSchema) : List PropertySchema :=
  schema.properties.filter fun p => p.name.isSome

variable {schema old : IsarSchema}

/-! ## Properties -/

/-- An old property stays as it is. -/
def staysProperty (schema : IsarSchema) (old : PropertySchema) : Bool :=
  (schema.changedProperty old).isNone

theorem property_eq_find (schema : IsarSchema) (name : String) :
    schema.property name = schema.named.find? fun p => decide (p.name = some name) := by
  rw [property, named, List.find?_filter]
  congr 1
  funext p
  apply Bool.eq_iff_iff.mpr
  cases p.name <;> simp

theorem changedProperty_eq {p : PropertySchema} {name : String} (eq : p.name = some name) :
    schema.changedProperty p =
      if schema.staysProperty p then none else some (name, schema.property name) := by
  have cases : schema.changedProperty p = none ∨
      schema.changedProperty p = some (name, schema.property name) := by
    unfold changedProperty
    rw [eq]
    cases found : schema.property name with
    | none => exact Or.inr (by simp [found])
    | some q =>
      simp only [found]
      split
      · exact Or.inr rfl
      · exact Or.inl rfl
  unfold staysProperty
  rcases cases with none | some
  · simp [none]
  · simp [some]

theorem filterMap_changedProperty (properties : List PropertySchema) :
    properties.filterMap schema.changedProperty =
      ((properties.filter fun p => p.name.isSome).filter fun p => !schema.staysProperty p).filterMap
        fun p => p.name.map fun name => (name, schema.property name) := by
  induction properties with
  | nil => rfl
  | cons p properties ih =>
    cases name : p.name with
    | none =>
      have none : schema.changedProperty p = none := by simp [changedProperty, name]
      simp [none, name, ih]
    | some n =>
      have changed := @changedProperty_eq schema _ _ name
      cases stays : schema.staysProperty p <;> simp [changed, stays, name, ih]

section
variable {g : String → Option PropertySchema} {properties : List PropertySchema}

theorem map_fst_named (all : ∀ p ∈ properties, p.name.isSome = true) :
    ((properties.filterMap fun p => p.name.map fun name => (name, g name)).map
      Prod.fst).map some = properties.map PropertySchema.name := by
  induction properties with
  | nil => rfl
  | cons p properties ih =>
    obtain ⟨name, eq⟩ := Option.isSome_iff_exists.mp (all p List.mem_cons_self)
    have rest := ih fun q mem => all q (List.mem_cons_of_mem _ mem)
    rw [List.map_cons, eq, ← rest]
    simp [eq]

theorem filterMap_snd_named :
    (properties.filterMap fun p => p.name.map fun name => (name, g name)).filterMap Prod.snd =
      properties.filterMap fun p => p.name.bind g := by
  rw [List.filterMap_filterMap]
  congr 1
  funext p
  cases p.name <;> rfl

end

theorem isSome_of_mem_named {p : PropertySchema} (mem : p ∈ schema.named) :
    p.name.isSome = true := (List.mem_filter.mp mem).2

/-- The names that the changes drop, as names of properties. -/
theorem map_dropProperties (schema old : IsarSchema) :
    (schema.findChanges old).dropProperties.map some =
      dropped PropertySchema.name schema.staysProperty old.named := by
  simp only [findChanges, filterMap_changedProperty]
  apply map_fst_named
  intro p mem
  exact isSome_of_mem_named (List.mem_filter.mp mem).1

/-- The properties that the changes add. -/
theorem addProperties_eq (schema old : IsarSchema) :
    (schema.findChanges old).addProperties =
      replaced PropertySchema.name schema.staysProperty old.named schema.named ++
        fresh PropertySchema.name old.named schema.named := by
  simp only [findChanges, filterMap_changedProperty, filterMap_snd_named]
  congr 1
  · apply List.filterMap_congr
    intro p mem
    obtain ⟨name, eq⟩ := Option.isSome_iff_exists.mp
      (isSome_of_mem_named (List.mem_filter.mp mem).1)
    rw [eq, Option.bind_some, property_eq_find]
  · simp only [fresh, named, List.filter_filter]
    apply List.filter_congr
    intro p _
    apply Bool.eq_iff_iff.mpr
    simp only [Bool.and_eq_true, Bool.not_eq_true', List.any_eq_false, List.mem_filter,
      beq_iff_eq, decide_eq_true_eq, and_imp]
    refine ⟨fun h => ⟨fun q mem _ => h.2 q mem, h.1⟩, fun h => ⟨h.2, fun q mem same => ?_⟩⟩
    exact h.1 q mem (same ▸ h.2) same

/-- A property that stays is the new one of its name. -/
theorem mem_of_staysProperty {p : PropertySchema} (mem : p ∈ old.named)
    (stays : schema.staysProperty p = true) : p ∈ schema.named := by
  obtain ⟨name, eq⟩ := Option.isSome_iff_exists.mp (isSome_of_mem_named mem)
  unfold staysProperty changedProperty at stays
  rw [eq] at stays
  cases found : schema.property name with
  | none => simp [found] at stays
  | some q =>
    by_cases differs : q.dataType ≠ p.dataType ∨ q.collection ≠ p.collection
    · simp [found, differs] at stays
    · obtain ⟨type, collection⟩ := not_or.mp differs
      rw [property_eq_find] at found
      have name' : q.name = some name := by simpa using List.find?_some found
      have same : q = p := by
        cases p
        cases q
        simp_all
      exact same ▸ List.mem_of_find?_eq_some found

theorem nodup_named (nodup : (schema.properties.map PropertySchema.name).Nodup) :
    (schema.named.map PropertySchema.name).Nodup :=
  nodup.sublist (List.Sublist.map _ List.filter_sublist)

/-- Dropping and adding properties as the changes say gives the properties of the schema. -/
theorem perm_named (oldNames : (old.named.map PropertySchema.name).Nodup)
    (names : (schema.named.map PropertySchema.name).Nodup) :
    ((old.named.filter fun p => p.name ∉ (schema.findChanges old).dropProperties.map some) ++
      (schema.findChanges old).addProperties).Perm schema.named := by
  have left : (old.named.filter fun p =>
      p.name ∉ (schema.findChanges old).dropProperties.map some) =
      kept PropertySchema.name schema.staysProperty old.named := by
    rw [map_dropProperties]
    exact List.filter_congr fun p _ => by simp
  rw [left, addProperties_eq]
  exact KeyedDiff.perm oldNames names fun p mem => mem_of_staysProperty mem

theorem perm_properties (oldNames : (old.named.map PropertySchema.name).Nodup)
    (names : (schema.properties.map PropertySchema.name).Nodup) :
    ((old.named.filter fun p => p.name ∉ (schema.findChanges old).dropProperties.map some) ++
      (schema.findChanges old).addProperties).Perm schema.named :=
  perm_named oldNames (nodup_named names)

/-! ## Indexes -/

/-- An old index stays as it is. -/
def staysIndex (schema old : IsarSchema) (index : IndexSchema) : Bool :=
  (schema.changedIndex (schema.findChanges old).dropProperties index).isNone

theorem changedIndex_eq (drops : List String) (i : IndexSchema) :
    schema.changedIndex drops i =
      if (schema.changedIndex drops i).isNone then none else some (i.name, schema.index i.name) := by
  unfold changedIndex
  cases schema.index i.name with
  | none => simp
  | some j =>
    simp only
    split <;> simp

theorem filterMap_changedIndex (schema old : IsarSchema) (indexes : List IndexSchema) :
    indexes.filterMap (schema.changedIndex (schema.findChanges old).dropProperties) =
      (indexes.filter fun i => !schema.staysIndex old i).map fun i =>
        (i.name, schema.index i.name) := by
  induction indexes with
  | nil => rfl
  | cons i indexes ih =>
    have changed := @changedIndex_eq schema (schema.findChanges old).dropProperties i
    cases stays : schema.staysIndex old i with
    | true =>
      unfold staysIndex at stays
      rw [stays] at changed
      simp [changed, ih, staysIndex]
    | false =>
      unfold staysIndex at stays
      rw [stays] at changed
      simp [changed, ih, staysIndex]

theorem index_eq_find (schema : IsarSchema) (name : String) :
    schema.index name = schema.indexes.find? fun i => decide (i.name = name) := by
  rw [index]
  congr 1

theorem dropIndexes_eq (schema old : IsarSchema) :
    (schema.findChanges old).dropIndexes =
      dropped IndexSchema.name (schema.staysIndex old) old.indexes := by
  show (old.indexes.filterMap (schema.changedIndex
    (schema.findChanges old).dropProperties)).map Prod.fst = _
  rw [filterMap_changedIndex, List.map_map]
  rfl

theorem addIndexes_eq (schema old : IsarSchema) :
    (schema.findChanges old).addIndexes =
      replaced IndexSchema.name (schema.staysIndex old) old.indexes schema.indexes ++
        fresh IndexSchema.name old.indexes schema.indexes := by
  show (old.indexes.filterMap (schema.changedIndex
    (schema.findChanges old).dropProperties)).filterMap Prod.snd ++ _ = _
  rw [filterMap_changedIndex, List.filterMap_map]
  congr 1
  refine List.filter_congr fun i _ => ?_
  congr 2
  funext j
  apply Bool.eq_iff_iff.mpr
  rw [beq_iff_eq, decide_eq_true_eq]
  exact eq_comm

/-- An index that stays is the new one of its name. -/
theorem mem_of_staysIndex {i : IndexSchema} (stays : schema.staysIndex old i = true) :
    i ∈ schema.indexes := by
  unfold staysIndex changedIndex at stays
  cases found : schema.index i.name with
  | none => simp [found] at stays
  | some j =>
    rw [found] at stays
    by_cases differs : j.unique ≠ i.unique ∨ j.properties ≠ i.properties ∨ j.hash ≠ i.hash ∨
        ∃ p ∈ j.properties, p ∈ (schema.findChanges old).dropProperties
    · simp [differs] at stays
    · simp only [not_or, not_not] at differs
      have name : j.name = i.name := by simpa using List.find?_some found
      have same : j = i := by
        cases i
        cases j
        simp_all
      exact same ▸ List.mem_of_find?_eq_some found

/-- Dropping and adding indexes as the changes say gives the indexes of the schema. -/
theorem perm_indexes (oldNames : (old.indexes.map IndexSchema.name).Nodup)
    (names : (schema.indexes.map IndexSchema.name).Nodup) :
    ((old.indexes.filter fun i => i.name ∉ (schema.findChanges old).dropIndexes) ++
      (schema.findChanges old).addIndexes).Perm schema.indexes := by
  have left : (old.indexes.filter fun i => i.name ∉ (schema.findChanges old).dropIndexes) =
      kept IndexSchema.name (schema.staysIndex old) old.indexes := by
    rw [dropIndexes_eq]
    exact List.filter_congr fun i _ => by simp
  rw [left, addIndexes_eq]
  exact KeyedDiff.perm oldNames names fun i _ => mem_of_staysIndex

/-! ## Schemas that agree -/

/-- A property that the schema has stays. -/
theorem staysProperty_of_mem (names : (schema.named.map PropertySchema.name).Nodup)
    {p : PropertySchema} (mem : p ∈ schema.named) : schema.staysProperty p = true := by
  obtain ⟨name, eq⟩ := Option.isSome_iff_exists.mp (isSome_of_mem_named mem)
  have found : schema.property name = some p := by
    rw [property_eq_find]
    exact (find?_key_eq_some names).mpr ⟨mem, eq⟩
  simp [staysProperty, changedProperty, eq, found]

/-- The changes from a schema that has the same properties, in whatever order, are none. -/
theorem propertyChanges_nil (names : (schema.properties.map PropertySchema.name).Nodup)
    (same : old.named.Perm schema.named) :
    (schema.findChanges old).addProperties = [] ∧
      (schema.findChanges old).dropProperties = [] := by
  have stays (p : PropertySchema) (mem : p ∈ old.named) : schema.staysProperty p = true :=
    staysProperty_of_mem (nodup_named names) (same.mem_iff.mp mem)
  obtain ⟨drop, replace, fresh⟩ := @KeyedDiff.unchanged _ _ PropertySchema.name
    schema.staysProperty old.named schema.named _ stays fun q mem => ⟨q, same.mem_iff.mpr mem, rfl⟩
  refine ⟨?_, ?_⟩
  · rw [addProperties_eq, replace, fresh, List.append_nil]
  · apply List.map_eq_nil_iff.mp
    rw [map_dropProperties, drop]

/-- An index that the schema has stays exactly if none of its properties is dropped. -/
theorem staysIndex_iff_of_mem (names : (schema.indexes.map IndexSchema.name).Nodup)
    {i : IndexSchema} (mem : i ∈ schema.indexes) : schema.staysIndex old i = true ↔
      ∀ name ∈ i.properties, name ∉ (schema.findChanges old).dropProperties := by
  have found : schema.index i.name = some i := by
    rw [index_eq_find]
    exact (find?_key_eq_some names).mpr ⟨mem, rfl⟩
  simp [staysIndex, changedIndex, found]

/-- Where no property is dropped, an index stays if the schema has it. -/
theorem staysIndex_of_mem (names : (schema.indexes.map IndexSchema.name).Nodup)
    (noDrops : (schema.findChanges old).dropProperties = []) {i : IndexSchema}
    (mem : i ∈ schema.indexes) : schema.staysIndex old i = true := by
  rw [staysIndex_iff_of_mem names mem, noDrops]
  intro name _
  exact List.not_mem_nil

/-- The same for indexes. -/
theorem indexChanges_nil (names : (schema.indexes.map IndexSchema.name).Nodup)
    (noDrops : (schema.findChanges old).dropProperties = [])
    (same : old.indexes.Perm schema.indexes) :
    (schema.findChanges old).addIndexes = [] ∧ (schema.findChanges old).dropIndexes = [] := by
  obtain ⟨drop, replace, fresh⟩ := @KeyedDiff.unchanged _ _ IndexSchema.name
    (schema.staysIndex old) old.indexes schema.indexes _
    (fun i mem => staysIndex_of_mem names noDrops (same.mem_iff.mp mem))
    fun i mem => ⟨i, same.mem_iff.mpr mem, rfl⟩
  refine ⟨?_, ?_⟩
  · rw [addIndexes_eq, replace, fresh, List.append_nil]
  · rw [dropIndexes_eq, drop]

/-- Only old indexes are dropped. -/
theorem dropIndexes_sub_names (schema old : IsarSchema) {name : String}
    (mem : name ∈ (schema.findChanges old).dropIndexes) :
    name ∈ old.indexes.map IndexSchema.name := by
  rw [dropIndexes_eq, KeyedDiff.mem_dropped] at mem
  obtain ⟨i, there, -, rfl⟩ := mem
  exact List.mem_map_of_mem there

/-- The schema without one of its indexes. -/
def withoutIndex (schema : IsarSchema) (i : IndexSchema) : IsarSchema :=
  { schema with indexes := schema.indexes.erase i }

/-- The only change to a schema without an index is that the index is dropped. -/
theorem indexChanges_withoutIndex (names : (schema.indexes.map IndexSchema.name).Nodup)
    {i : IndexSchema} (mem : i ∈ schema.indexes)
    (noDrops : (schema.findChanges old).dropProperties = [])
    (same : old.indexes.Perm schema.indexes) :
    ((schema.withoutIndex i).findChanges old).addIndexes = [] ∧
      ((schema.withoutIndex i).findChanges old).dropIndexes = [i.name] := by
  have nodup : schema.indexes.Nodup := names.of_map
  have names' : ((schema.withoutIndex i).indexes.map IndexSchema.name).Nodup :=
    names.sublist (List.Sublist.map _ List.erase_sublist)
  have noDrops' : ((schema.withoutIndex i).findChanges old).dropProperties = [] := noDrops
  have gone : i ∉ (schema.withoutIndex i).indexes := nodup.not_mem_erase
  have stays (j : IndexSchema) (mem' : j ∈ old.indexes) :
      (schema.withoutIndex i).staysIndex old j = decide (j ≠ i) := by
    by_cases eq : j = i
    · subst eq
      rw [decide_eq_false (by simp), ← Bool.not_eq_true]
      exact fun stays => gone (mem_of_staysIndex stays)
    · rw [decide_eq_true eq]
      apply staysIndex_of_mem names' noDrops'
      exact (List.mem_erase_of_ne eq).mpr (same.mem_iff.mp mem')
  have left : (old.indexes.filter fun j => !(schema.withoutIndex i).staysIndex old j) = [i] := by
    have one : old.indexes.count i = 1 :=
      List.count_eq_one_of_mem (same.nodup_iff.mpr nodup) (same.mem_iff.mpr mem)
    rw [List.filter_congr fun j mem' => by rw [stays j mem']]
    simp [List.filter_eq, one]
  refine ⟨?_, ?_⟩
  · rw [addIndexes_eq, replaced, left, List.append_eq_nil_iff]
    refine ⟨?_, ?_⟩
    · simp only [List.filterMap_cons, List.filterMap_nil]
      cases found : (schema.withoutIndex i).indexes.find? fun j => decide (j.name = i.name) with
      | none => rfl
      | some j =>
        have there := List.mem_of_find?_eq_some found
        have name : j.name = i.name := by simpa using List.find?_some found
        have eq := List.inj_on_of_nodup_map names (List.mem_of_mem_erase there) mem name
        exact absurd (eq ▸ there) gone
    · rw [fresh, List.filter_eq_nil_iff]
      intro j mem'
      simpa using ⟨j, same.mem_iff.mpr (List.mem_of_mem_erase mem'), rfl⟩
  · rw [dropIndexes_eq, dropped, left]
    rfl

end IsarPlus.IsarSchema
