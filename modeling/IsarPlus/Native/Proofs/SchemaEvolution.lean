import IsarPlus.Native.Proofs.OlderObjects
import IsarPlus.Native.Proofs.RoundTrip
import IsarPlus.Native.Proofs.StoredLayouts

/-!
# Schema evolution

However often a collection is migrated, an object keeps the properties that the collection keeps,
and what was added later is absent from it. Indexes of properties and of collections have 16 bits.
-/

namespace IsarPlus.Native
open ByteBuffer OrderedStore
open Sqlite (Written)

/-! ## One step -/

section
variable {xxh3_64 : Bytes → UInt64} {d d' : Database} {event : Event}

/-- What a migration leaves of a stored schema that is still stored. -/
theorem find_of_performMigration {refused : Faults} {schemas : List IsarSchema} {s s' : Storage}
    {r : Result (List (NativeCollection × Int64))}
    (h : performMigration refused schemas s = (s', r)) {name : String} {e' : IsarSchema}
    (stored' : s'.info.find name = some e') :
    s.info.find name = some e' ∨ ∃ c ∈ schemas, c.name = name ∧
      e' = savedSchema c (keptProperties (s.info.find name) c) := by
  obtain ⟨done, rest, s₁, rfl, committed, ends⟩ := committed_of_performMigration h
  have there : s₁.info.find name = some e' := by
    rcases ends with ⟨rfl, -⟩ | ⟨-, removed, -⟩
    · exact stored'
    · rw [removed.info] at stored'
      split at stored'
      · cases stored'
      · exact stored'
  have info := committed.info name
  cases found : lastNamed done name with
  | none =>
    rw [found] at info
    exact Or.inl (info.symm.trans there)
  | some c =>
    rw [found, there] at info
    obtain ⟨mem, named⟩ := lastNamed_eq_some found
    exact Or.inr ⟨c, List.mem_append_left _ mem, named, Option.some.inj info⟩

/-- The objects of a collection that is still stored are those that there were. -/
theorem objects_of_performMigration {refused : Faults} {schemas : List IsarSchema} {s s' : Storage}
    {r : Result (List (NativeCollection × Int64))}
    (h : performMigration refused schemas s = (s', r)) {name : String}
    (stored' : (s'.info.find name).isSome) : s'.objects name = s.objects name := by
  obtain ⟨done, rest, s₁, rfl, committed, ends⟩ := committed_of_performMigration h
  rcases ends with ⟨rfl, -⟩ | ⟨-, removed, -⟩
  · exact committed.objects name
  · rw [removed.objects name, committed.objects]
    intro gone
    rw [removed.info, if_pos gone] at stored'
    cases stored'

/-- A stored schema that is still stored after a step. -/
theorem find_of_step (h : Database.Step xxh3_64 d event d') {name : String} {e' : IsarSchema}
    (stored' : d'.storage.info.find name = some e') :
    d.storage.info.find name = some e' ∨ ∃ schemas c,
      IsarSchema.verifySchemas schemas = .ok () ∧ c ∈ schemas ∧ c.name = name ∧
      e' = savedSchema c (keptProperties (d.storage.info.find name) c) := by
  cases h with
  | commit opened done => exact Or.inl stored'
  | abort => exact Or.inl stored'
  | migrate verified names done =>
    rcases find_of_performMigration done stored' with same | ⟨c, mem, named, eq⟩
    · exact Or.inl same
    · exact Or.inr ⟨_, c, verified, mem, named, eq⟩
  | fail verified names failed =>
    rcases find_of_performMigration failed stored' with same | ⟨c, mem, named, eq⟩
    · exact Or.inl same
    · exact Or.inr ⟨_, c, verified, mem, named, eq⟩

/-- What one step leaves of the stored properties of a collection. -/
theorem extends_of_step (laid : d.Laid) (h : Database.Step xxh3_64 d event d') {name : String}
    {e e' : IsarSchema} (stored : d.storage.info.find name = some e)
    (stored' : d'.storage.info.find name = some e') :
    Extends e.properties e'.properties ∧ ∀ (i : Nat) (p : PropertySchema), p.name.isSome →
      e.properties[i]? = some p → p ∈ e'.properties → e'.properties[i]? = some p := by
  rcases find_of_step h stored' with same | ⟨schemas, c, verified, mem, named, eq⟩
  · cases stored.symm.trans same
    exact ⟨Extends.refl _, fun i p _ there _ => there⟩
  · rw [stored] at eq
    subst eq
    have names := (IsarSchema.verified_of_verifySchemas verified c mem).properties
    have oldNames := laid.stored name e stored
    refine ⟨extends_mergedProperties c e, fun i p hasName there again => ?_⟩
    have perm := perm_named_keptProperties (some e) names fun e' eq => by
      cases eq
      exact oldNames
    exact getElem?_mergedProperties names oldNames there
      (perm.subset (List.mem_filter.mpr ⟨again, hasName⟩))

/-- A migration that succeeds leaves the schemas that were asked for. -/
theorem isSome_iff_of_performMigration {refused : Faults} {schemas : List IsarSchema}
    {s s' : Storage} {cols : List (NativeCollection × Int64)}
    (h : performMigration refused schemas s = (s', .ok cols)) (name : String) :
    (s'.info.find name).isSome ↔ ∃ c ∈ schemas, c.name = name := by
  obtain ⟨done, rest, s₁, rfl, committed, ends⟩ := committed_of_performMigration h
  rcases ends with ⟨-, e, failed⟩ | ⟨rfl, removed, -⟩
  · cases failed
  · rw [List.append_nil] at removed ⊢
    constructor
    · intro stored'
      by_contra missing
      have unasked : lastNamed done name = none := by
        cases found : lastNamed done name with
        | none => rfl
        | some c => exact absurd ⟨c, lastNamed_eq_some found⟩ missing
      have info := committed.info name
      rw [unasked] at info
      rw [removed.info] at stored'
      split at stored'
      · cases stored'
      · rename_i stays
        obtain ⟨e, stored⟩ := Option.isSome_iff_exists.mp stored'
        obtain ⟨mem, named⟩ := Storage.mem_of_find_info (info.symm.trans stored)
        refine stays (List.mem_map.mpr ⟨e, List.mem_filter.mpr ⟨mem, ?_⟩, named⟩)
        simp only [Bool.not_eq_true', List.any_eq_false, beq_iff_eq, named]
        exact lastNamed_eq_none unasked
    · rintro ⟨c, mem, rfl⟩
      obtain ⟨c', -, -, stored⟩ := stored_of_removed committed removed mem
      rw [stored]
      rfl

/-- A migration that fails removes no schema. -/
theorem isSome_of_failed {refused : Faults} {schemas : List IsarSchema} {s s' : Storage} {e : Fault}
    (h : performMigration refused schemas s = (s', .error e)) {name : String}
    (there : (s.info.find name).isSome) : (s'.info.find name).isSome := by
  obtain ⟨done, rest, s₁, rfl, committed, ends⟩ := committed_of_performMigration h
  rcases ends with ⟨rfl, -⟩ | ⟨-, -, cols, failed, -⟩
  · have info := committed.info name
    cases found : lastNamed done name with
    | none =>
      rw [found] at info
      rwa [info]
    | some c =>
      rw [found] at info
      rw [info]
      rfl
  · cases failed

/-- The target of a property that is still stored is still stored. -/
theorem isSome_target_of_step (laid : d.Laid) (h : Database.Step xxh3_64 d event d')
    {name target : String} {p : PropertySchema} (hasName : p.name.isSome)
    (points : p.collection = some target) (there : (d.storage.info.find target).isSome)
    (again : d'.storage.Stores name p) : (d'.storage.info.find target).isSome := by
  obtain ⟨e', stored', mem'⟩ := again
  cases h with
  | commit opened done => exact there
  | abort => exact there
  | fail verified names failed => exact isSome_of_failed failed there
  | migrate verified names done =>
    have asked := isSome_iff_of_performMigration done
    obtain ⟨c, memC, rfl⟩ := (asked name).mp (by
      show (_ : Option IsarSchema).isSome
      rw [stored']
      rfl)
    refine (asked target).mpr ?_
    have own : p ∈ c.properties := by
      have made := madeOf_of_performMigration names done
      obtain ⟨i, there⟩ := List.mem_iff_getElem?.mp memC
      obtain ⟨col, -, stored, -⟩ := getElem?_of_forall₂ made there
      cases stored.symm.trans stored'
      have perm := perm_named_keptProperties (d.storage.info.find c.name)
        (IsarSchema.verified_of_verifySchemas verified c memC).properties
        fun e eq => laid.stored c.name e eq
      exact (List.mem_filter.mp (perm.subset (List.mem_filter.mpr ⟨mem', hasName⟩))).1
    exact IsarSchema.target_of_verifySchemas verified memC own points

end

/-! ## Histories -/

section
variable {xxh3_64 : Bytes → UInt64} {d d' : Database} {passed : List (Event × Database)}

/-- The stored properties of a collection that is stored all the time. Those of the start that are
stored all the time keep their places, and one that has a place of the start was stored all the
time. -/
theorem extends_of_trace (history : Trace (Database.Step xxh3_64) d passed d') (laid : d.Laid)
    {name : String} {e : IsarSchema} (stored : d.storage.info.find name = some e)
    (all : ∀ v ∈ passed, (v.2.storage.info.find name).isSome) :
    ∃ e', d'.storage.info.find name = some e' ∧ Extends e.properties e'.properties ∧
      (∀ (i : Nat) (p : PropertySchema), p.name.isSome → e.properties[i]? = some p →
        (∀ v ∈ passed, v.2.storage.Stores name p) → e'.properties[i]? = some p) ∧
      ∀ (i : Nat) (p : PropertySchema), p.name.isSome → e'.properties[i]? = some p →
        i < e.properties.length → ∀ v ∈ passed, v.2.storage.Stores name p := by
  induction history generalizing e with
  | nil => exact ⟨e, stored, Extends.refl _, fun _ _ _ there _ => there, by simp⟩
  | @cons d d₁ d' event passed one rest ih =>
    obtain ⟨e₁, stored₁⟩ := Option.isSome_iff_exists.mp (all _ List.mem_cons_self)
    obtain ⟨first, stay⟩ := extends_of_step laid one stored stored₁
    obtain ⟨e', stored', later, keeps, back⟩ := ih (laid.step one) stored₁ fun v mem =>
      all v (List.mem_cons_of_mem _ mem)
    refine ⟨e', stored', first.trans later, fun i p named there again => ?_,
      fun i p named there lt => ?_⟩
    · obtain ⟨e₁', same, mem⟩ := again _ List.mem_cons_self
      cases stored₁.symm.trans same
      exact keeps i p named (stay i p named there mem) fun v mem =>
        again v (List.mem_cons_of_mem _ mem)
    · have lt₁ := lt.trans_le first.length
      have there₁ := later.back there named lt₁
      intro v mem
      rcases List.mem_cons.mp mem with rfl | mem
      · exact ⟨e₁, stored₁, List.mem_of_getElem? there₁⟩
      · exact back i p named there lt₁ v mem

/-- The target of a property that is stored all the time is stored all the time. -/
theorem isSome_target_of_trace (history : Trace (Database.Step xxh3_64) d passed d')
    (laid : d.Laid) {name target : String} {p : PropertySchema} (hasName : p.name.isSome)
    (points : p.collection = some target) (there : (d.storage.info.find target).isSome)
    (all : ∀ v ∈ passed, v.2.storage.Stores name p) :
    ∀ v ∈ passed, (v.2.storage.info.find target).isSome := by
  induction history with
  | nil => simp
  | cons one rest ih =>
    have next := isSome_target_of_step laid one hasName points there (all _ List.mem_cons_self)
    intro v mem
    rcases List.mem_cons.mp mem with rfl | mem
    · exact next
    · exact ih (laid.step one) next (fun v mem => all v (List.mem_cons_of_mem _ mem)) v mem

/-- Migrations leave the objects of a collection that is stored all the time. -/
theorem objects_of_trace (history : Trace (Database.Step xxh3_64) d passed d') {name : String}
    (all : ∀ v ∈ passed, (v.2.storage.info.find name).isSome)
    (migrations : ∀ v ∈ passed, ∃ refused schemas, v.1 = .migrate refused schemas) :
    d'.storage.objects name = d.storage.objects name := by
  induction history with
  | nil => rfl
  | cons one rest ih =>
    have next := all _ List.mem_cons_self
    have others := ih (fun v mem => all v (List.mem_cons_of_mem _ mem)) fun v mem =>
      migrations v (List.mem_cons_of_mem _ mem)
    obtain ⟨refused, schemas, eq⟩ := migrations _ List.mem_cons_self
    refine others.trans ?_
    cases one with
    | commit opened done => cases eq
    | abort => cases eq
    | migrate verified names done => exact objects_of_performMigration done next
    | fail verified names failed => exact objects_of_performMigration failed next

/-! ## Opened collections -/

/-- The collections of a database, made of the schemas that were asked for as they are stored. -/
structure Database.Opens (d : Database) (schemas : List IsarSchema) : Prop where
  verified : IsarSchema.verifySchemas schemas = .ok ()
  names : (schemas.map IsarSchema.name).Nodup
  made : List.Forall₂ (fun schema col => ∃ e, d.storage.info.find schema.name = some e ∧
    e.named.Perm schema.named ∧ MadeOf (schemas.map IsarSchema.name) schema e.properties col)
    schemas d.collections

theorem opens_of_step {event : Event} {schemas : List IsarSchema} (laid : d.Laid)
    (opens : d.collections ≠ [] → d.Opens schemas) (h : Database.Step xxh3_64 d event d') :
    d'.collections ≠ [] → d'.Opens (requestedSchemas schemas [event]) := by
  intro some_
  cases h with
  | commit opened done => exact ⟨(opens some_).verified, (opens some_).names, (opens some_).made⟩
  | abort => exact opens some_
  | fail verified names failed => exact absurd rfl some_
  | migrate verified names done =>
    refine ⟨verified, names, ?_⟩
    have made := madeOf_of_performMigration names done
    refine List.Forall₂.imp ?_ ((List.forall₂_and_left _ _).mpr ⟨fun c mem => mem, made⟩)
    rintro c col ⟨mem, stored, made⟩
    exact ⟨_, stored, perm_named_keptProperties _
      (IsarSchema.verified_of_verifySchemas verified c mem).properties
      fun e eq => laid.stored c.name e eq, made⟩

theorem requestedSchemas_cons (schemas : List IsarSchema) (event : Event) (events : List Event) :
    requestedSchemas schemas (event :: events) =
      requestedSchemas (requestedSchemas schemas [event]) events := by
  cases event <;> rfl

theorem opens_of_run {events : List Event} {schemas : List IsarSchema} (laid : d.Laid)
    (opens : d.collections ≠ [] → d.Opens schemas)
    (run : Run (Database.Step xxh3_64) d events d') :
    d'.collections ≠ [] → d'.Opens (requestedSchemas schemas events) := by
  induction run generalizing schemas with
  | nil => exact opens
  | cons one _ ih =>
    rw [requestedSchemas_cons]
    exact ih (laid.step one) (opens_of_step laid opens one)

namespace Database.Opens

variable {schemas : List IsarSchema} {c : NativeCollection}

/-- A collection, with the schema that it was opened for and the properties as they are stored. -/
theorem exists_made (opens : d.Opens schemas) (mem : c ∈ d.collections) :
    ∃ schema ∈ schemas, ∃ e, d.storage.info.find c.name = some e ∧ e.named.Perm schema.named ∧
      MadeOf (schemas.map IsarSchema.name) schema e.properties c := by
  obtain ⟨i, there⟩ := List.mem_iff_getElem?.mp mem
  obtain ⟨schema, listed, e, stored, perm, made⟩ := getElem?_of_forall₂ opens.made.flip there
  exact ⟨schema, List.mem_of_getElem? listed, e, made.name ▸ stored, perm, made⟩

/-- The collection that a stored property points to. -/
theorem embedded (opens : d.Opens schemas) (few : d.collections.length ≤ 2 ^ 16) {offset : Nat}
    {p : PropertySchema} {q : NativeProperty}
    (native : nativeProperty (schemas.map IsarSchema.name) offset p = some q) :
    match p.collection with
    | some target => ∃ old, q.embedded d.collections = some old ∧ old.name = target
    | none => q.embedded d.collections = none := by
  unfold nativeProperty at native
  cases points : p.collection with
  | none =>
    rw [points] at native
    cases native
    rfl
  | some target =>
    rw [points] at native
    obtain ⟨index, found, rfl⟩ := Option.map_eq_some_iff.mp native
    obtain ⟨lt, same, -⟩ := List.findIdx?_eq_some_iff_getElem.mp found
    rw [List.getElem_map, beq_iff_eq] at same
    rw [List.length_map] at lt
    obtain ⟨old, there, e, -, -, made⟩ := getElem?_of_forall₂ opens.made
      (List.getElem?_eq_getElem lt)
    have below : index < 2 ^ 16 := by
      have := opens.made.length_eq
      omega
    refine ⟨old, ?_, made.name.trans same⟩
    have width : (UInt16.ofNat index).toNat = index := UInt16.toNat_ofNat_of_lt below
    simp only [NativeProperty.embedded, Option.bind_eq_bind, Option.bind_some, width, there]

end Database.Opens

end

/-! ## Properties of collections -/

section
variable {c : NativeCollection} {name : String} {q : NativeProperty}

/-- Few properties have indexes of 16 bits. -/
theorem getProperty_of_knows (few : c.properties.length < 2 ^ 16) {index : UInt32}
    (there : c.properties[index.toNat - 1]? = some (name, q)) (positive : index ≠ 0) :
    c.getProperty index.toUInt16 = some q := by
  have lt := (List.getElem?_eq_some_iff.mp there).1
  have ne : index.toNat ≠ 0 := fun eq => positive (UInt32.toNat_inj.mp eq)
  exact WriterImpl.exact_object c index q (show index.toNat < 2 ^ 16 by omega)
    (WriterImpl.property_object.mpr ⟨positive, name, there⟩)

theorem knows_of_place (few : c.properties.length < 2 ^ 16) {i : Nat}
    (there : c.properties[i]? = some (name, q)) :
    c.Knows (UInt32.ofNat (i + 1)) name ∧
      c.getProperty (UInt32.ofNat (i + 1)).toUInt16 = some q := by
  have lt := (List.getElem?_eq_some_iff.mp there).1
  have width : (UInt32.ofNat (i + 1)).toNat = i + 1 :=
    UInt32.toNat_ofNat_of_lt' (show i + 1 < 2 ^ 32 by omega)
  have positive : UInt32.ofNat (i + 1) ≠ 0 := by
    intro eq
    rw [eq] at width
    cases width
  have there' : c.properties[(UInt32.ofNat (i + 1)).toNat - 1]? = some (name, q) := by
    rw [width]
    exact there
  exact ⟨⟨positive, by rw [there']; rfl⟩, getProperty_of_knows few there' positive⟩

end

/-! ## Evolution -/

/-- The collections of a history that go by the same name and are stored all the time. -/
def Succeeds (before after : Database) (passed : List (Event × Database))
    (old new : NativeCollection) : Prop :=
  old ∈ before.collections ∧ new ∈ after.collections ∧ new.name = old.name ∧
    ∀ v ∈ passed, (v.2.storage.info.find old.name).isSome

/-- What a history leaves of a collection and of the objects that it has written. -/
structure Evolved (before after : Database) (passed : List (Event × Database))
    (schemas : List IsarSchema) (old new : NativeCollection) : Prop where
  slots : ∃ e, after.storage.info.find new.name = some e ∧ new.LaidOut e.properties
  order : ∃ schema ∈ schemas, schema.name = new.name ∧
    new.properties.map (some ∘ Prod.fst) = schema.named.map PropertySchema.name
  indexes : ∀ (id : Int64) (d : IsarDeserializer) (i : Nat) (e : String × NativeProperty),
    new.properties[i]? = some e →
      (Reader.object id d new).getProperty (UInt32.ofNat (i + 1)) = some e.2
  kept : ∀ name p, (name, p) ∈ old.properties → Kept before passed old.name name →
    ∃ q, (name, q) ∈ new.properties ∧ q.dataType = p.dataType ∧ q.offset = p.offset
  reads : ∀ (count : Nat) (id : Int64) (writes : List (UInt32 × Written)) (insert : NativeInsert),
    TypedAll before.collections (.object old) writes → (writes.map Prod.fst).Nodup →
    old.writeObject before.collections count writes = some insert →
    ∃ d, new.reader id insert.object.finish = some (.object id d new) ∧
      FieldsStillRead (Kept before passed) before.collections after.collections old new
        (.object id d new) writes ∧
      AddedAbsent (Kept before passed) after.collections d new
  objects : (∀ v ∈ passed, ∃ refused schemas, v.1 = .migrate refused schemas) →
    after.storage.objects old.name = before.storage.objects old.name

section
variable {xxh3_64 : Bytes → UInt64} {before after : Database} {passed : List (Event × Database)}
  {schemas schemas' : List IsarSchema} {old new : NativeCollection}

/-- A property that is kept has its place in the stored properties of both ends. -/
theorem place_of_kept (history : Trace (Database.Step xxh3_64) before passed after)
    (laid : before.Laid) (opens : before.Opens schemas) (opens' : after.Opens schemas')
    (succeeds : Succeeds before after passed old new) {name : String} {p : NativeProperty}
    (mem : (name, p) ∈ old.properties) (kept : Kept before passed old.name name) :
    ∃ (ps : PropertySchema) (q : NativeProperty), ps.name.isSome ∧
      nativeProperty (schemas.map IsarSchema.name) p.offset ps = some p ∧
      nativeProperty (schemas'.map IsarSchema.name) p.offset ps = some q ∧
      (name, q) ∈ new.properties ∧ ∀ v ∈ passed, v.2.storage.Stores old.name ps := by
  obtain ⟨memOld, memNew, same, all⟩ := succeeds
  obtain ⟨schema, -, e, stored, -, made⟩ := opens.exists_made memOld
  obtain ⟨schema', -, e', stored', -, made'⟩ := opens'.exists_made memNew
  obtain ⟨_, again, extends_, keeps, -⟩ := extends_of_trace history laid stored all
  rw [← same, stored'] at again
  cases again
  obtain ⟨i, ps, there, named, native⟩ := made.mem_properties.mp mem
  have hasName : ps.name.isSome := by rw [named]; rfl
  obtain ⟨ps', named', ⟨e₀, stored₀, mem₀⟩, always⟩ := kept
  cases stored.symm.trans stored₀
  obtain rfl : ps' = ps := List.inj_on_of_nodup_map (laid.stored _ e stored)
    (List.mem_filter.mpr ⟨mem₀, by rw [named']; rfl⟩)
    (List.mem_filter.mpr ⟨List.mem_of_getElem? there, hasName⟩) (named'.trans named.symm)
  have there' := keeps i ps' hasName there always
  obtain ⟨unsorted, native', -⟩ := made'.native
  obtain ⟨q, native'⟩ := Option.isSome_iff_exists.mp
    (isSome_nativeProperty native' there' hasName)
  rw [Nat.zero_add] at native'
  obtain ⟨type, offset⟩ := nativeProperty_eq native
  have place := extends_.slotStart_eq (Nat.le_of_lt (List.getElem?_eq_some_iff.mp there).1)
  have mem' := made'.mem_properties.mpr ⟨i, ps', there', named, native'⟩
  rw [place, ← offset] at native'
  rw [← offset] at native
  exact ⟨ps', q, hasName, native, native', mem', always⟩

/-- A property that is kept matches the one that the collection has now. -/
theorem matches_of_kept (history : Trace (Database.Step xxh3_64) before passed after)
    (laid : before.Laid) (opens : before.Opens schemas) (opens' : after.Opens schemas')
    (few : before.collections.length ≤ 2 ^ 16) (few' : after.collections.length ≤ 2 ^ 16)
    (succeeds : Succeeds before after passed old new) {name : String} {p : NativeProperty}
    (mem : (name, p) ∈ old.properties) (kept : Kept before passed old.name name) :
    ∃ q, (name, q) ∈ new.properties ∧
      Matches before.collections after.collections (Succeeds before after passed) p q := by
  obtain ⟨ps, q, hasName, native, native', mem', always⟩ :=
    place_of_kept history laid opens opens' succeeds mem kept
  obtain ⟨type, -⟩ := nativeProperty_eq native
  obtain ⟨type', offset⟩ := nativeProperty_eq native'
  refine ⟨q, mem', type'.trans type.symm, offset, fun oldTarget target => ?_⟩
  have embedded := opens.embedded few native
  have embedded' := opens'.embedded few' native'
  cases points : ps.collection with
  | none =>
    rw [points] at embedded
    rw [target] at embedded
    cases embedded
  | some t =>
    rw [points] at embedded embedded'
    obtain ⟨_, found, nameOld⟩ := embedded
    obtain ⟨newTarget, found', nameNew⟩ := embedded'
    rw [target] at found
    cases found
    have memTarget := mem_of_embedded target
    obtain ⟨_, -, _, storedTarget, -, -⟩ := opens.exists_made memTarget
    refine ⟨newTarget, found', memTarget, mem_of_embedded found', nameNew.trans nameOld.symm, ?_⟩
    rw [nameOld] at storedTarget ⊢
    exact isSome_target_of_trace history laid hasName points (by rw [storedTarget]; rfl) always

/-- The slot of a property that is not kept lies behind the objects that were written before. -/
theorem behind_of_not_kept (history : Trace (Database.Step xxh3_64) before passed after)
    (laid : before.Laid) (opens : before.Opens schemas) (opens' : after.Opens schemas')
    (succeeds : Succeeds before after passed old new) {name : String} {q : NativeProperty}
    (mem : (name, q) ∈ new.properties) (lost : ¬ Kept before passed new.name name) :
    old.staticSize ≤ q.offset := by
  obtain ⟨memOld, memNew, same, all⟩ := succeeds
  obtain ⟨schema, -, e, stored, -, made⟩ := opens.exists_made memOld
  obtain ⟨schema', -, e', stored', -, made'⟩ := opens'.exists_made memNew
  obtain ⟨_, again, extends_, -, back⟩ := extends_of_trace history laid stored all
  rw [← same, stored'] at again
  cases again
  obtain ⟨i, ps, there, named, native⟩ := made'.mem_properties.mp mem
  have hasName : ps.name.isSome := by rw [named]; rfl
  have behind : e.properties.length ≤ i := by
    by_contra lt
    rw [not_le] at lt
    refine lost ⟨ps, named, ?_, ?_⟩
    · rw [same]
      exact ⟨e, stored, List.mem_of_getElem? (extends_.back there hasName lt)⟩
    · rw [same]
      exact back i ps hasName there lt
  calc old.staticSize ≤ slotSizes e.properties := made.small
    _ = slotStart e'.properties e.properties.length := by
        rw [extends_.slotStart_eq le_rfl, slotStart_length]
    _ ≤ slotStart e'.properties i := slotStart_mono _ behind
    _ = q.offset := (nativeProperty_eq native).2.symm

/-- The versions of the collections that are stored all the time follow on each other. -/
theorem follows_of_trace (history : Trace (Database.Step xxh3_64) before passed after)
    (laid : before.Laid) (opens : before.Opens schemas) (opens' : after.Opens schemas')
    (fewProperties : ∀ c ∈ after.collections, c.properties.length < 2 ^ 16)
    (few : before.collections.length ≤ 2 ^ 16) (few' : after.collections.length ≤ 2 ^ 16) :
    Follows (Kept before passed) before.collections after.collections
      (Succeeds before after passed) := by
  refine ⟨fun succeeds => succeeds.2.2.1, fun succeeds => succeeds.1,
    fun {old new} succeeds {index name p} found knows kept => ?_,
    fun {old new} succeeds {index name} knows lost => ?_⟩
  · obtain ⟨-, name', there⟩ := WriterImpl.property_object.mp found
    have own := knows.2
    rw [there] at own
    cases own
    obtain ⟨q, mem, matches_⟩ := matches_of_kept history laid opens opens' few few' succeeds
      (List.mem_of_getElem? there) kept
    obtain ⟨i, there'⟩ := List.mem_iff_getElem?.mp mem
    obtain ⟨knows', found'⟩ := knows_of_place (fewProperties new succeeds.2.1) there'
    exact ⟨_, q, knows', found', matches_⟩
  · obtain ⟨⟨name', q⟩, there, rfl⟩ := Option.map_eq_some_iff.mp knows.2
    exact ⟨q, getProperty_of_knows (fewProperties new succeeds.2.1) there knows.1,
      behind_of_not_kept history laid opens opens' succeeds (List.mem_of_getElem? there) lost⟩

/-- After any history, an object reads what one of its collection's earlier versions has written to
the properties that were kept, and nothing else. -/
theorem schema_evolution {events : List Event}
    (run : Run (Database.Step xxh3_64) Database.new events before)
    (history : Trace (Database.Step xxh3_64) before passed after)
    (succeeds : Succeeds before after passed old new)
    (fewProperties : ∀ c ∈ after.collections, c.properties.length < 2 ^ 16)
    (few : before.collections.length ≤ 2 ^ 16) (few' : after.collections.length ≤ 2 ^ 16) :
    Evolved before after passed (requestedSchemas [] (events ++ passed.map Prod.fst)) old new := by
  obtain ⟨memOld, memNew, same, all⟩ := id succeeds
  have laid := Database.Laid.run run
  have laid' : after.Laid := history.run.invariant (fun _ _ _ laid one => laid.step one) laid
  have none_ : Database.new.collections ≠ [] → Database.new.Opens [] := fun some_ => absurd rfl some_
  have opens := opens_of_run Database.Laid.new none_ run (List.ne_nil_of_mem memOld)
  have opens' := opens_of_run Database.Laid.new none_ (run.append history.run)
    (List.ne_nil_of_mem memNew)
  obtain ⟨schema, listed, e, stored, perm, made⟩ := opens'.exists_made memNew
  have names := (IsarSchema.verified_of_verifySchemas opens'.verified schema listed).properties
  have follows := follows_of_trace history laid opens opens' fewProperties few few'
  refine ⟨⟨e, stored, made.laidOut⟩, ⟨schema, listed, made.name.symm, made.names names perm⟩, ?_,
    ?_, ?_, objects_of_trace history all⟩
  · intro id d i e there
    exact (knows_of_place (fewProperties new memNew) there).2
  · intro name p mem kept
    obtain ⟨q, mem', matches_⟩ := matches_of_kept history laid opens opens' few few' succeeds mem
      kept
    exact ⟨q, mem', matches_.dataType, matches_.offset⟩
  · intro count id writes insert typed nodup written
    have earlier (c : NativeCollection) (mem : c ∈ before.collections) := laid.collection mem
    have later (c : NativeCollection) (mem : c ∈ after.collections) := laid'.collection mem
    have fits := NativeCollection.objectFits_of_writeObject earlier memOld typed written
    obtain ⟨insert', again, -, encodes⟩ :=
      NativeCollection.writeObject_spec count earlier memOld typed nodup fits
    rw [written] at again
    cases again
    exact encodes.stillReads earlier later follows succeeds typed fits

end

/-! ## Levels -/

/-- The next version of the levels: a name in front, and the byte has become an integer. -/
def namedLevelSchema : IsarSchema :=
  { levelSchema with properties := [⟨some "name", .string, none⟩, ⟨some "value", .int, none⟩] }

def namedLevels : NativeCollection :=
  .new 0 "Level" (some "id") [("name", ⟨.string, 5, none⟩), ("value", ⟨.int, 1, none⟩)] []
    (some "Level")

/-- The storage behind the migration to the levels, and behind the one to the next version. -/
def levelStorage : Storage := (performMigration noFaults [levelSchema] Database.new.storage).1

def namedLevelStorage : Storage := (performMigration noFaults [namedLevelSchema] levelStorage).1

theorem schema_evolution_on_levels :
    Evolved ⟨levelStorage, [levels]⟩ ⟨namedLevelStorage, [namedLevels]⟩
      [(.migrate noFaults [namedLevelSchema], ⟨namedLevelStorage, [namedLevels]⟩)]
      [namedLevelSchema] levels namedLevels := by
  have run : Run (Database.Step fun _ => 0) .new [.migrate noFaults [levelSchema]]
      ⟨levelStorage, [levels]⟩ := .cons (.migrate rfl (by decide) rfl) .nil
  have history : Trace (Database.Step fun _ => 0) ⟨levelStorage, [levels]⟩
      [(.migrate noFaults [namedLevelSchema], ⟨namedLevelStorage, [namedLevels]⟩)]
      ⟨namedLevelStorage, [namedLevels]⟩ := by
    refine .cons ?_ .nil
    exact @Database.Step.migrate _ _ noFaults [namedLevelSchema] namedLevelStorage
      [(namedLevels, 1)] rfl (by decide) rfl
  refine schema_evolution run history ?_ ?_ (show 1 ≤ 2 ^ 16 by decide)
    (show 1 ≤ 2 ^ 16 by decide)
  · refine ⟨List.mem_singleton_self _, List.mem_singleton_self _, rfl, fun v mem => ?_⟩
    cases List.mem_singleton.mp mem
    rfl
  · intro c mem
    cases List.mem_singleton.mp mem
    decide

/-- The reader takes the index of the 65536th property for the id. -/
theorem schema_evolution_not_literal : ¬ ∀ (xxh3_64 : Bytes → UInt64) (before after : Database)
    (events : List Event) (passed : List (Event × Database)) (old new : NativeCollection),
    Run (Database.Step xxh3_64) Database.new events before →
    Trace (Database.Step xxh3_64) before passed after → Succeeds before after passed old new →
    Evolved before after passed (requestedSchemas [] (events ++ passed.map Prod.fst)) old new := by
  intro all
  obtain ⟨s, properties, run, length, -⟩ := flags_opened 65536
  let c : NativeCollection := .new 0 "Flags" (some "id") properties [] (some "Flags")
  have evolved := all _ _ _ _ [] c c run .nil
    ⟨List.mem_singleton_self c, List.mem_singleton_self c, rfl, by simp⟩
  obtain ⟨e, last⟩ : ∃ e, properties[65535]? = some e := ⟨_, List.getElem?_eq_getElem (by omega)⟩
  have found := evolved.indexes 0 ⟨[], 0⟩ 65535 e last
  -- The 16 bits of the index are zero.
  cases found

end IsarPlus.Native
