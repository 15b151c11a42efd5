import IsarPlus.Native.Proofs.OpenedCollections

/-!
# Stored layouts

The offsets of a collection's properties are not stored. They follow from the stored properties, the
dropped ones among them, and migrations only ever add properties behind those that are there.
-/

namespace IsarPlus.Native
open ByteBuffer OrderedStore

/-! ## Slots of stored properties -/

/-- Where the slot of a stored property begins. -/
def slotStart (properties : List PropertySchema) (i : Nat) : Nat := slotSizes (properties.take i)

section
variable {properties properties' : List PropertySchema} {i j : Nat}

theorem slotSizes_append (properties properties' : List PropertySchema) :
    slotSizes (properties ++ properties') = slotSizes properties + slotSizes properties' := by
  simp [slotSizes]

@[simp] theorem slotStart_zero (properties : List PropertySchema) : slotStart properties 0 = 0 := by
  simp [slotStart, slotSizes]

@[simp] theorem slotStart_cons (p : PropertySchema) (properties : List PropertySchema) (i : Nat) :
    slotStart (p :: properties) (i + 1) = p.dataType.staticSize + slotStart properties i := by
  simp [slotStart, slotSizes]

/-- The slots of stored properties, visible or dropped, follow on each other. -/
theorem slotStart_add_le {p : PropertySchema} (stored : properties[i]? = some p) (lt : i < j) :
    slotStart properties i + p.dataType.staticSize ≤ slotStart properties j := by
  induction properties generalizing i j with
  | nil => cases stored
  | cons q properties ih =>
    obtain ⟨j, rfl⟩ := Nat.exists_eq_succ_of_ne_zero (Nat.ne_of_gt (Nat.zero_lt_of_lt lt))
    cases i with
    | zero =>
      cases stored
      rw [slotStart_zero, slotStart_cons]
      omega
    | succ i =>
      have rest := ih stored (Nat.lt_of_succ_lt_succ lt)
      rw [slotStart_cons, slotStart_cons]
      omega

theorem slotStart_length (properties : List PropertySchema) :
    slotStart properties properties.length = slotSizes properties := by
  rw [slotStart, List.take_length]

theorem slotStart_mono (properties : List PropertySchema) (le : i ≤ j) :
    slotStart properties i ≤ slotStart properties j := by
  rcases Nat.lt_or_ge i properties.length with lt | long
  · rcases Nat.lt_or_eq_of_le le with lt' | rfl
    · have := slotStart_add_le (List.getElem?_eq_getElem lt) lt'
      omega
    · exact le_rfl
  · rw [slotStart, slotStart, List.take_of_length_le long, List.take_of_length_le (long.trans le)]

/-- What `get_properties` returns has the slots of the stored properties. -/
theorem mem_getProperties {schemaNames : List String} {offset : Nat}
    {native : List (String × NativeProperty)}
    (h : getProperties schemaNames offset properties = some native) {name : String}
    {q : NativeProperty} : (name, q) ∈ native ↔ ∃ i p, properties[i]? = some p ∧
      p.name = some name ∧ nativeProperty schemaNames (offset + slotStart properties i) p =
        some q := by
  induction properties generalizing offset native with
  | nil =>
    cases h
    simp
  | cons p properties ih =>
    obtain ⟨own, first, rest, later, rfl⟩ := getProperties_cons h
    have behind := ih later
    have own_iff : (name, q) ∈ own ↔
        p.name = some name ∧ nativeProperty schemaNames offset p = some q := by
      cases named : p.name with
      | none =>
        rw [named] at first
        cases first
        simp
      | some n =>
        rw [named] at first
        obtain ⟨q', native, rfl⟩ := Option.map_eq_some_iff.mp first
        rw [List.mem_singleton, Prod.mk.injEq, native, Option.some.injEq, Option.some.injEq]
        exact and_congr eq_comm eq_comm
    rw [List.mem_append, own_iff, behind]
    constructor
    · rintro (⟨named, native⟩ | ⟨i, p', stored, named, native⟩)
      · exact ⟨0, p, rfl, named, by simpa using native⟩
      · refine ⟨i + 1, p', stored, named, ?_⟩
        rwa [slotStart_cons, ← Nat.add_assoc]
    · rintro ⟨i, p', stored, named, native⟩
      cases i with
      | zero =>
        cases stored
        exact Or.inl ⟨named, by simpa using native⟩
      | succ i =>
        rw [slotStart_cons, ← Nat.add_assoc] at native
        exact Or.inr ⟨i, p', stored, named, native⟩

end

theorem isSome_nativeProperty {schemaNames : List String} {properties : List PropertySchema}
    {offset : Nat} {native : List (String × NativeProperty)}
    (h : getProperties schemaNames offset properties = some native) {i : Nat} {p : PropertySchema}
    (stored : properties[i]? = some p) (named : p.name.isSome) :
    (nativeProperty schemaNames (offset + slotStart properties i) p).isSome := by
  induction properties generalizing offset native i with
  | nil => cases stored
  | cons q properties ih =>
    obtain ⟨own, first, rest, later, rfl⟩ := getProperties_cons h
    cases i with
    | zero =>
      cases stored
      obtain ⟨name, eq⟩ := Option.isSome_iff_exists.mp named
      simp only [eq] at first
      obtain ⟨property, native, -⟩ := Option.map_eq_some_iff.mp first
      rw [slotStart_zero, Nat.add_zero, native]
      rfl
    | succ i =>
      have behind := ih later stored
      rwa [slotStart_cons, ← Nat.add_assoc]

/-! ## Properties that are kept -/

/-- The new list has the old properties at their places, and those that were dropped without their
names. -/
structure Extends (old new : List PropertySchema) : Prop where
  length : old.length ≤ new.length
  places : ∀ (i : Nat) (p : PropertySchema), old[i]? = some p →
    new[i]? = some p ∨ new[i]? = some { p with name := none }

namespace Extends

variable {old new newer : List PropertySchema}

theorem refl (properties : List PropertySchema) : Extends properties properties :=
  ⟨le_rfl, fun _ _ stored => Or.inl stored⟩

theorem trans (first : Extends old new) (second : Extends new newer) : Extends old newer := by
  refine ⟨first.length.trans second.length, fun i p stored => ?_⟩
  rcases first.places i p stored with stored | dropped
  · exact second.places i p stored
  · rcases second.places i _ dropped with dropped | dropped
    · exact Or.inr dropped
    · exact Or.inr dropped

/-- A property that has its name still was there before. -/
theorem back (h : Extends old new) {i : Nat} {p : PropertySchema} (stored : new[i]? = some p)
    (named : p.name.isSome = true) (lt : i < old.length) : old[i]? = some p := by
  have there : old[i]? = some old[i] := List.getElem?_eq_getElem lt
  rcases h.places i _ there with same | dropped
  · rw [there, ← stored, same]
  · rw [stored] at dropped
    cases dropped
    cases named

/-- The slots of the old properties are where they were. -/
theorem slotStart_eq (h : Extends old new) {i : Nat} (le : i ≤ old.length) :
    slotStart new i = slotStart old i := by
  induction i with
  | zero => simp
  | succ i ih =>
    have stored : old[i]? = some old[i] := List.getElem?_eq_getElem le
    obtain ⟨p', stored', type⟩ : ∃ p', new[i]? = some p' ∧ p'.dataType = old[i].dataType := by
      rcases h.places i _ stored with stored' | stored'
      · exact ⟨_, stored', rfl⟩
      · exact ⟨_, stored', rfl⟩
    have step (l : List PropertySchema) (p : PropertySchema) (at_ : l[i]? = some p) :
        slotStart l (i + 1) = slotStart l i + p.dataType.staticSize := by
      rw [slotStart, List.take_add_one, at_, slotSizes_append]
      simp [slotStart, slotSizes]
    rw [step new p' stored', step old _ stored, ih (Nat.le_of_succ_le le), type]

end Extends

section
variable {properties : List PropertySchema}

theorem extends_dropProperty (properties : List PropertySchema) (name : String) :
    Extends properties (dropProperty properties name) := by
  induction properties with
  | nil => exact Extends.refl _
  | cons p properties ih =>
    rw [dropProperty]
    split
    · refine ⟨le_rfl, fun i q stored => ?_⟩
      cases i with
      | zero =>
        cases stored
        exact Or.inr rfl
      | succ i => exact Or.inl stored
    · refine ⟨Nat.succ_le_succ ih.length, fun i q stored => ?_⟩
      cases i with
      | zero =>
        cases stored
        exact Or.inl rfl
      | succ i => exact ih.places i q stored

theorem extends_foldl_dropProperty (properties : List PropertySchema) (names : List String) :
    Extends properties (names.foldl dropProperty properties) := by
  induction names generalizing properties with
  | nil => exact Extends.refl _
  | cons name names ih => exact (extends_dropProperty properties name).trans (ih _)

theorem extends_append (properties added : List PropertySchema) :
    Extends properties (properties ++ added) := by
  refine ⟨by simp, fun i p stored => Or.inl ?_⟩
  rw [List.getElem?_append_left (List.getElem?_eq_some_iff.mp stored).1]
  exact stored

theorem extends_mergedProperties (schema existing : IsarSchema) :
    Extends existing.properties (mergedProperties schema existing) :=
  (extends_foldl_dropProperty _ _).trans (extends_append _ _)

theorem getElem?_dropProperty {name : String} {i : Nat} {p : PropertySchema}
    (stored : properties[i]? = some p) (other : p.name ≠ some name) :
    (dropProperty properties name)[i]? = some p := by
  induction properties generalizing i with
  | nil => cases stored
  | cons q properties ih =>
    rw [dropProperty]
    cases i with
    | zero =>
      cases stored
      rw [if_neg other]
      rfl
    | succ i =>
      split
      · exact stored
      · exact ih stored

theorem getElem?_foldl_dropProperty {names : List String} {i : Nat} {p : PropertySchema}
    (stored : properties[i]? = some p) (others : p.name ∉ names.map some) :
    (names.foldl dropProperty properties)[i]? = some p := by
  induction names generalizing properties with
  | nil => exact stored
  | cons name names ih =>
    rw [List.map_cons, List.mem_cons, not_or] at others
    exact ih (getElem?_dropProperty stored others.1) others.2

/-- A property that the new schema has as it is stays at its place. -/
theorem getElem?_mergedProperties {schema existing : IsarSchema} {i : Nat} {p : PropertySchema}
    (names : (schema.properties.map PropertySchema.name).Nodup)
    (oldNames : (existing.named.map PropertySchema.name).Nodup)
    (stored : existing.properties[i]? = some p) (again : p ∈ schema.named) :
    (mergedProperties schema existing)[i]? = some p := by
  have old : p ∈ existing.named := List.mem_filter.mpr
    ⟨List.mem_of_getElem? stored, IsarSchema.isSome_of_mem_named again⟩
  have stays := IsarSchema.staysProperty_of_mem (IsarSchema.nodup_named names) again
  have others : p.name ∉ (schema.findChanges existing).dropProperties.map some := by
    rw [IsarSchema.map_dropProperties]
    intro dropped
    obtain ⟨q, mem, same⟩ := List.mem_map.mp dropped
    obtain ⟨mem, leaves⟩ := List.mem_filter.mp mem
    obtain rfl := List.inj_on_of_nodup_map oldNames mem old same
    rw [stays] at leaves
    cases leaves
  have here := getElem?_foldl_dropProperty stored others
  rw [mergedProperties, List.getElem?_append_left (List.getElem?_eq_some_iff.mp here).1]
  exact here

end

/-! ## The order of opened properties -/

section
variable {schema : IsarSchema}

/-- The place of a name in a schema. -/
def place (schema : IsarSchema) (name : Option String) : Nat :=
  schema.properties.findIdx fun q => q.name == name

theorem place_getElem (names : (schema.properties.map PropertySchema.name).Nodup) {i : Nat}
    (lt : i < schema.properties.length) : place schema (schema.properties[i]).name = i := by
  refine (List.findIdx_eq lt).mpr ⟨beq_self_eq_true _, fun j below => ?_⟩
  apply beq_eq_false_iff_ne.mpr
  intro same
  refine List.nodup_iff_getElem?_ne_getElem?.mp names j i below (by rwa [List.length_map]) ?_
  rw [List.getElem?_map, List.getElem?_map, List.getElem?_eq_getElem (below.trans lt),
    List.getElem?_eq_getElem lt, Option.map_some, Option.map_some, same]

theorem place_injective {a o : Option String} (known : a ∈ schema.properties.map PropertySchema.name)
    (known' : o ∈ schema.properties.map PropertySchema.name)
    (same : place schema a = place schema o) : a = o := by
  have read (n : Option String) (mem : n ∈ schema.properties.map PropertySchema.name) :
      (schema.properties[place schema n]?).map PropertySchema.name = some n := by
    obtain ⟨p, memP, rfl⟩ := List.mem_map.mp mem
    have lt : place schema p.name < schema.properties.length :=
      List.findIdx_lt_length_of_exists ⟨p, memP, beq_self_eq_true _⟩
    have found := List.findIdx_getElem (w := lt)
    rw [List.getElem?_eq_getElem lt, Option.map_some, Option.some.injEq]
    exact beq_iff_eq.mp found
  have first := read a known
  rw [same, read o known'] at first
  exact (Option.some.inj first).symm

theorem pairwise_place_named (names : (schema.properties.map PropertySchema.name).Nodup) :
    (schema.named.map PropertySchema.name).Pairwise fun a o =>
      place schema a ≤ place schema o := by
  rw [List.pairwise_map]
  refine List.Pairwise.sublist List.filter_sublist (List.pairwise_iff_getElem.mpr ?_)
  intro i j hi hj lt
  rw [place_getElem names hi, place_getElem names hj]
  exact Nat.le_of_lt lt

theorem pairwise_place_sortProperties {properties sorted : List (String × NativeProperty)}
    (h : sortProperties schema properties = some sorted) :
    (sorted.map (some ∘ Prod.fst)).Pairwise fun a o => place schema a ≤ place schema o := by
  unfold sortProperties at h
  split at h
  · rename_i short
    cases h
    cases properties with
    | nil => exact List.Pairwise.nil
    | cons e rest =>
      cases rest with
      | nil => exact List.pairwise_singleton _ _
      | cons e' rest =>
        simp only [List.length_cons] at short
        omega
  · obtain ⟨keyed, found, eq⟩ := Option.bind_eq_some_iff.mp h
    cases eq
    have key (e : Nat × String × NativeProperty) (mem : e ∈ keyed) :
        place schema (some e.2.1) = e.1 := by
      obtain ⟨p, -, eq⟩ := mem_of_mapM found e mem
      obtain ⟨position, at_, rfl⟩ := Option.map_eq_some_iff.mp eq
      exact (List.findIdx?_eq_some_iff_findIdx_eq.mp at_).2
    have total : Std.Total fun a o : Nat × String × NativeProperty => a.1 ≤ o.1 :=
      ⟨fun a o => Nat.le_total a.1 o.1⟩
    have transitive : IsTrans (Nat × String × NativeProperty) fun a o => a.1 ≤ o.1 :=
      ⟨fun a b c => Nat.le_trans⟩
    rw [List.map_map, List.pairwise_map]
    refine (List.pairwise_insertionSort _ keyed).imp_of_mem ?_
    intro a o memA memO le
    have memA := (List.mem_insertionSort _).mp memA
    have memO := (List.mem_insertionSort _).mp memO
    show place schema (some a.2.1) ≤ place schema (some o.2.1)
    rw [key a memA, key o memO]
    exact le

/-- The opened properties stand in the order of the schema. -/
theorem names_sortProperties {properties sorted : List (String × NativeProperty)}
    (names : (schema.properties.map PropertySchema.name).Nodup)
    (h : sortProperties schema properties = some sorted)
    (perm : (properties.map (some ∘ Prod.fst)).Perm (schema.named.map PropertySchema.name)) :
    sorted.map (some ∘ Prod.fst) = schema.named.map PropertySchema.name := by
  have same := ((perm_sortProperties h).map (some ∘ Prod.fst)).trans perm
  have known (n : Option String) (mem : n ∈ schema.named.map PropertySchema.name) :
      n ∈ schema.properties.map PropertySchema.name :=
    (List.filter_sublist.map _).subset mem
  refine List.Perm.eq_of_pairwise (fun a o memA memO le ge => ?_)
    (pairwise_place_sortProperties h) (pairwise_place_named names) same
  exact place_injective (known a (same.subset memA)) (known o memO) (Nat.le_antisymm le ge)

end

/-! ## Opened collections and the stored schemas -/

theorem getElem?_of_forall₂ {α β : Type*} {R : α → β → Prop} {l : List α} {r : List β}
    (h : List.Forall₂ R l r) {i : Nat} {a : α} (there : l[i]? = some a) :
    ∃ b, r[i]? = some b ∧ R a b := by
  induction h generalizing i with
  | nil => cases there
  | cons one _ ih =>
    cases i with
    | zero =>
      cases there
      exact ⟨_, rfl, one⟩
    | succ i => exact ih there

/-- What a turn of the migration makes of the properties with which a schema is stored. -/
structure MadeOf (schemaNames : List String) (schema : IsarSchema)
    (properties : List PropertySchema) (col : NativeCollection) : Prop where
  name : col.name = schema.name
  native : ∃ unsorted, getProperties schemaNames 0 properties = some unsorted ∧
    sortProperties schema unsorted = some col.properties
  small : col.staticSize ≤ slotSizes properties

theorem MadeOf.mem_properties {schemaNames : List String} {schema : IsarSchema}
    {properties : List PropertySchema} {col : NativeCollection}
    (made : MadeOf schemaNames schema properties col) {name : String} {q : NativeProperty} :
    (name, q) ∈ col.properties ↔ ∃ i p, properties[i]? = some p ∧ p.name = some name ∧
      nativeProperty schemaNames (slotStart properties i) p = some q := by
  obtain ⟨unsorted, native, sorted⟩ := made.native
  have places := @mem_getProperties _ _ _ _ native name q
  rw [(perm_sortProperties sorted).mem_iff, places]
  simp only [Nat.zero_add]

/-- The slots of all stored properties, visible or dropped, are apart from each other, and every
property of the collection has the slot of the stored property of its name. -/
structure NativeCollection.LaidOut (c : NativeCollection) (properties : List PropertySchema) :
    Prop where
  apart : ∀ i j p, properties[i]? = some p → i < j →
    slotStart properties i + p.dataType.staticSize ≤ slotStart properties j
  own : ∀ name q, (name, q) ∈ c.properties → ∃ i p, properties[i]? = some p ∧
    p.name = some name ∧ q.dataType = p.dataType ∧ q.offset = slotStart properties i

theorem MadeOf.laidOut {schemaNames : List String} {schema : IsarSchema}
    {properties : List PropertySchema} {col : NativeCollection}
    (made : MadeOf schemaNames schema properties col) : col.LaidOut properties where
  apart _ _ _ stored lt := slotStart_add_le stored lt
  own name q mem := by
    obtain ⟨i, p, stored, named, native⟩ := made.mem_properties.mp mem
    exact ⟨i, p, stored, named, nativeProperty_eq native⟩

theorem MadeOf.names {schemaNames : List String} {schema : IsarSchema}
    {properties : List PropertySchema} {col : NativeCollection}
    (made : MadeOf schemaNames schema properties col)
    (nodup : (schema.properties.map PropertySchema.name).Nodup)
    (perm : (properties.filter fun p => p.name.isSome).Perm schema.named) :
    col.properties.map (some ∘ Prod.fst) = schema.named.map PropertySchema.name := by
  obtain ⟨unsorted, native, sorted⟩ := made.native
  refine names_sortProperties nodup sorted ?_
  rw [(slots_of_getProperties native).names]
  exact perm.map _

theorem madeOf_of_migrateSchema {refused : TxnFaults} {existingSchemas : List IsarSchema}
    {schemaNames : List String} {collectionIndex : Nat} {s s' : Storage} {schema : IsarSchema}
    {col : NativeCollection × Int64}
    (h : migrateSchema refused existingSchemas schemaNames collectionIndex s schema =
      .ok (s', col)) :
    MadeOf schemaNames schema
      (keptProperties (existingSchemas.find? fun c => c.name == schema.name) schema) col.1 := by
  obtain ⟨_, -, h⟩ := bind_eq_ok.mp h
  obtain ⟨⟨s₁, merged⟩, migrated, h⟩ := bind_eq_ok.mp h
  obtain ⟨unsorted, native, h⟩ := bind_eq_ok.mp h
  obtain ⟨properties, sorted, h⟩ := bind_eq_ok.mp h
  obtain ⟨_, -, h⟩ := bind_eq_ok.mp h
  obtain ⟨⟨s₂, primary⟩, -, h⟩ := bind_eq_ok.mp h
  obtain ⟨⟨s₃, indexes⟩, -, h⟩ := bind_eq_ok.mp h
  obtain ⟨counter, -, h⟩ := bind_eq_ok.mp h
  obtain ⟨_, -, h⟩ := bind_eq_ok.mp h
  cases pure_eq_ok.mp h
  obtain ⟨-, rfl⟩ := leaves_migrateProperties migrated
  have native := orPanic_eq_ok.mp native
  have sorted := orPanic_eq_ok.mp sorted
  refine ⟨rfl, ⟨unsorted, native, sorted⟩, staticSize_new fun e mem => ?_⟩
  have inside := (slots_of_getProperties native).inside e ((perm_sortProperties sorted).subset mem)
  omega

theorem madeOf_of_migrateSchemas {refused : Faults} {existingSchemas : List IsarSchema}
    {schemaNames : List String} {n : Nat} {s s' : Storage} {schemas : List IsarSchema}
    {before cols : List (NativeCollection × Int64)}
    (h : migrateSchemas refused existingSchemas schemaNames n s before schemas =
      (s', .ok cols)) : ∃ made, cols = before ++ made ∧
      List.Forall₂ (fun schema col => MadeOf schemaNames schema
        (keptProperties (existingSchemas.find? fun c => c.name == schema.name) schema)
        (Prod.fst col)) schemas made := by
  induction schemas generalizing n s before with
  | nil =>
    cases h
    exact ⟨[], by simp, .nil⟩
  | cons c schemas ih =>
    unfold migrateSchemas at h
    cases turn : migrateSchema (refused n) existingSchemas schemaNames before.length s c with
    | error e =>
      rw [turn] at h
      cases h
    | ok result =>
      rw [turn] at h
      obtain ⟨s₁, col⟩ := result
      obtain ⟨made, rfl, all⟩ := ih h
      exact ⟨col :: made, by simp, .cons (madeOf_of_migrateSchema turn) all⟩

/-- A migration stores the schemas with their merged properties, and opens the collections with
these. -/
theorem madeOf_of_performMigration {refused : Faults} {schemas : List IsarSchema}
    {s s' : Storage} {cols : List (NativeCollection × Int64)}
    (names : (schemas.map IsarSchema.name).Nodup)
    (h : performMigration refused schemas s = (s', .ok cols)) :
    List.Forall₂ (fun schema col => s'.info.find schema.name =
        some (savedSchema schema (keptProperties (s.info.find schema.name) schema)) ∧
      MadeOf (schemas.map IsarSchema.name) schema
        (keptProperties (s.info.find schema.name) schema) col) schemas (cols.map Prod.fst) := by
  obtain ⟨done, rest, s₁, split, committed, ends⟩ := committed_of_performMigration h
  rcases ends with ⟨-, e, failed⟩ | ⟨rfl, removed, cols', eq, loop⟩
  · cases failed
  · cases eq
    rw [List.append_nil] at split
    subst split
    obtain ⟨made, eq, all⟩ := madeOf_of_migrateSchemas loop
    rw [List.nil_append] at eq
    subst eq
    rw [List.forall₂_map_right_iff]
    refine List.Forall₂.imp ?_ (List.forall₂_and_left _ _ |>.mpr ⟨fun c mem => mem, all⟩)
    rintro c col ⟨mem, made⟩
    rw [s.find?_schemas] at made
    obtain ⟨c', mem', named, stored⟩ := stored_of_removed committed removed mem
    obtain rfl := List.inj_on_of_nodup_map names mem' mem named
    exact ⟨stored, made⟩

end IsarPlus.Native
