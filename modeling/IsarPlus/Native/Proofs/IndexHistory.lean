import IsarPlus.Native.Proofs.KnownEntries
import IsarPlus.Native.Proofs.SchemaEvolution
import IsarPlus.Native.Proofs.StoredIndexes

/-!
# The history of an index

Migrations create indexes and drop them, transactions write objects. An index never has an entry
without its object; the objects that are not in it are those that were stored when it was created
and have not been written since.
-/

namespace IsarPlus.Native
open ByteBuffer OrderedStore SecondaryIndex

/-- An object in the storage. -/
def Storage.get (s : Storage) (db : Db) (id : Int64) : Option Bytes := (s.objects db).find (idKey id)

/-- The stored schemas and the requested ones have index databases of different names. -/
def Database.Plain (d : Database) : Event → Prop
  | .operate _ _ => True
  | .migrate _ schemas => Unambiguous (d.storage.schemas ++ schemas)

/-- An index that every state of a history stores as it is, with its properties. -/
def KeepsIndex (d : Database) (passed : List (Event × Database)) (name : String) (i : IndexSchema) :
    Prop :=
  (∀ v ∈ passed, ∃ e, v.2.storage.info.find name = some e ∧ i ∈ e.indexes) ∧
    ∀ p ∈ i.properties, Kept d passed name p

/-! ## The index databases of a migration -/

section
variable {refused : Faults} {schemas : List IsarSchema} {s s' : Storage}
  {r : Result (List (NativeCollection × Int64))}

/-- Every stored schema is an earlier one or a requested one, but for its properties. -/
theorem origin_of_performMigration (h : performMigration refused schemas s = (s', r))
    {name : String} {e' : IsarSchema} (stored' : s'.info.find name = some e') :
    ∃ c ∈ s.schemas ++ schemas, c.name = name ∧ c.indexes = e'.indexes := by
  rcases find_of_performMigration h stored' with same | ⟨c, mem, named, rfl⟩
  · obtain ⟨mem, named⟩ := Storage.mem_of_find_info same
    exact ⟨e', List.mem_append_left _ mem, named, rfl⟩
  · exact ⟨c, List.mem_append_right _ mem, named, rfl⟩

theorem unambiguous_of_performMigration (h : performMigration refused schemas s = (s', r))
    (unambiguous : Unambiguous (s.schemas ++ schemas)) : Unambiguous s'.schemas := by
  intro c mem c' mem' i there i' there' rest name eq
  obtain ⟨o, memO, named, indexes⟩ :=
    origin_of_performMigration h (Storage.find_info_of_mem mem)
  obtain ⟨o', memO', named', indexes'⟩ :=
    origin_of_performMigration h (Storage.find_info_of_mem mem')
  rw [← named, ← named'] at name
  exact unambiguous o memO o' memO' i (indexes ▸ there) i' (indexes' ▸ there') rest name eq

/-- The database of an index that is stored has been emptied if the index was dropped. -/
theorem entries_of_stored (h : performMigration refused schemas s = (s', r))
    (unambiguous : Unambiguous (s.schemas ++ schemas)) :
    ∃ done rest, schemas = done ++ rest ∧ ∀ name e', s'.info.find name = some e' →
      (match lastNamed done name with
        | some c => e' = savedSchema c (keptProperties (s.info.find name) c)
        | none => s.info.find name = some e') ∧
      ∀ i ∈ e'.indexes, s'.entries (indexDb name i.name) =
        if ∃ c ∈ done, c.name = name ∧ ∃ e, s.info.find name = some e ∧
          i.name ∈ (c.findChanges e).dropIndexes then .empty
        else s.entries (indexDb name i.name) := by
  obtain ⟨done, rest, s₁, split, committed, ends⟩ := parts_of_performMigration h
  refine ⟨done, rest, split, fun name e' stored' => ?_⟩
  have stored₁ : s₁.info.find name = some e' := by
    rcases ends with ⟨rfl, -⟩ | ⟨-, cols, -, -, removed⟩
    · exact stored'
    · rw [(removed_of_foldlM removed).info] at stored'
      split at stored'
      · cases stored'
      · exact stored'
  refine ⟨?_, fun i there => ?_⟩
  · have info := committed.info name
    rw [stored₁] at info
    cases found : lastNamed done name with
    | none =>
      rw [found] at info
      exact info.symm
    | some c =>
      rw [found] at info
      exact Option.some.inj info
  · obtain ⟨o, memO, named, indexes⟩ := origin_of_performMigration h stored'
    have thereO : i ∈ o.indexes := indexes ▸ there
    -- databases of other collections have other names
    have own {c : IsarSchema} (mem : c ∈ s.schemas) {i' : IndexSchema} (there' : i' ∈ c.indexes)
        (same : indexDb c.name i'.name = indexDb name i.name) : c.name = name := by
      by_contra differ
      rw [← named] at same differ
      exact unambiguous.apart (List.mem_append_left _ mem) memO differ there' thereO same
    have removal : s'.entries (indexDb name i.name) = s₁.entries (indexDb name i.name) := by
      rcases ends with ⟨rfl, -⟩ | ⟨-, cols, -, -, removed⟩
      · rfl
      · rw [entries_of_removed removed, if_neg]
        rintro ⟨c, mem, i', there', same⟩
        have gone := (removed_of_foldlM removed).info name
        rw [if_pos (List.mem_map.mpr ⟨c, mem, own (List.mem_filter.mp mem).1 there' same⟩),
          stored'] at gone
        cases gone
    have dropped : (∃ c ∈ done, indexDb name i.name ∈ droppedDbs (s.info.find c.name) c) ↔
        ∃ c ∈ done, c.name = name ∧ ∃ e, s.info.find name = some e ∧
          i.name ∈ (c.findChanges e).dropIndexes := by
      constructor
      · rintro ⟨c, mem, listed⟩
        obtain ⟨e, stored, n, drop, same⟩ := mem_droppedDbs.mp listed
        obtain ⟨i', there', rfl⟩ := List.mem_map.mp (IsarSchema.dropIndexes_sub_names c e drop)
        obtain ⟨memE, nameE⟩ := Storage.mem_of_find_info stored
        have called : c.name = name := by
          rw [← nameE] at same ⊢
          exact own memE there' same
        rw [called] at same stored
        rw [indexDb_injective name same] at drop
        exact ⟨c, mem, called, e, stored, drop⟩
      · rintro ⟨c, mem, rfl, e, stored, drop⟩
        exact ⟨c, mem, mem_droppedDbs.mpr ⟨e, stored, i.name, drop, rfl⟩⟩
    rw [removal, committed.entries]
    simp only [dropped]

end

/-! ## Indexes of a database -/

/-- No database of an index is left over: what no stored schema has an index of is empty. -/
def Storage.Vacant (s : Storage) : Prop :=
  ∀ db, (∀ name e, s.info.find name = some e → ∀ i ∈ e.indexes, indexDb name i.name ≠ db) →
    s.entries db = .empty

/-- The indexes of stored schemas have their properties, their databases are told apart, and what is
open has them. -/
structure Database.Indexed (d : Database) : Prop where
  placed : ∀ name e, d.storage.info.find name = some e → ∀ i ∈ e.indexes, (storedIndex e i).isSome
  apart : Unambiguous d.storage.schemas
  vacant : d.storage.Vacant
  opened : ∀ col ∈ d.collections, ∃ e, d.storage.info.find col.name = some e ∧
    Native.Indexed e col ∧ Present d.storage e

section
variable {refused : Faults} {schemas : List IsarSchema} {s s' : Storage}
  {r : Result (List (NativeCollection × Int64))} {name : String} {e e' : IsarSchema}
  {i : IndexSchema}

/-- Where the properties of a schema are placed when it is stored. -/
theorem isSome_storedIndex_saved {existing : Option IsarSchema} {c : IsarSchema}
    (verified : IsarSchema.verifySchemas schemas = .ok ()) (mem : c ∈ schemas)
    (oldNames : ∀ e, existing = some e → (e.named.map PropertySchema.name).Nodup)
    (there : i ∈ c.indexes) :
    (storedIndex (savedSchema c (keptProperties existing c)) i).isSome := by
  have names := (IsarSchema.verified_of_verifySchemas verified c mem).properties
  have perm := perm_named_keptProperties existing names oldNames
  have nodup := (perm.map PropertySchema.name).nodup_iff.mpr (IsarSchema.nodup_named names)
  have found : (i.properties.mapM (storedProperty (keptProperties existing c))).isSome := by
    apply isSome_mapM
    intro n memN
    obtain ⟨p, memP, named, -⟩ := collection_of_indexed verified mem there memN
    obtain ⟨k, at_⟩ := List.mem_iff_getElem?.mp
      (List.mem_filter.mp (perm.symm.subset memP)).1
    rw [(storedProperty_eq_some nodup).mpr ⟨k, p, at_, named, rfl⟩]
    rfl
  obtain ⟨properties, found⟩ := Option.isSome_iff_exists.mp found
  rw [storedIndex]
  show ((i.properties.mapM (storedProperty (keptProperties existing c))).bind _).isSome
  rw [found]
  rfl

/-- A property that a schema does not drop stays where it was. -/
theorem storedProperty_merged {c : IsarSchema} {p : String} {q : NativeProperty}
    (names : (c.properties.map PropertySchema.name).Nodup)
    (oldNames : (e.named.map PropertySchema.name).Nodup)
    (stays : p ∉ (c.findChanges e).dropProperties)
    (found : storedProperty e.properties p = some q) :
    storedProperty (mergedProperties c e) p = some q := by
  have perm := perm_named_keptProperties (some e) names fun e' eq => by
    cases eq
    exact oldNames
  have nodup := (perm.map PropertySchema.name).nodup_iff.mpr (IsarSchema.nodup_named names)
  obtain ⟨k, ps, at_, named, rfl⟩ := (storedProperty_eq_some oldNames).mp found
  have others : ps.name ∉ (c.findChanges e).dropProperties.map some := by
    rw [named]
    intro listed
    obtain ⟨p', mem, same⟩ := List.mem_map.mp listed
    cases same
    exact stays mem
  have here := getElem?_foldl_dropProperty at_ others
  have there : (mergedProperties c e)[k]? = some ps := by
    rw [mergedProperties, List.getElem?_append_left (List.getElem?_eq_some_iff.mp here).1]
    exact here
  have place : slotStart (keptProperties (some e) c) k = slotStart e.properties k :=
    (extends_mergedProperties c e).slotStart_eq
      (Nat.le_of_lt (List.getElem?_eq_some_iff.mp at_).1)
  exact (storedProperty_eq_some nodup).mpr ⟨k, ps, there, named, by rw [place]⟩

/-- What a migration does to an index that is stored afterwards: it keeps it as it was, or the index
begins without entries. -/
theorem index_of_performMigration (verified : IsarSchema.verifySchemas schemas = .ok ())
    (names : (schemas.map IsarSchema.name).Nodup) (apartNames : s.NamesApart)
    (indexNames : ∀ name e, s.info.find name = some e → (e.indexes.map IndexSchema.name).Nodup)
    (vacant : s.Vacant) (unambiguous : Unambiguous (s.schemas ++ schemas))
    (h : performMigration refused schemas s = (s', r)) (stored' : s'.info.find name = some e')
    (there' : i ∈ e'.indexes) :
    (∃ e, s.info.find name = some e ∧ i ∈ e.indexes ∧
      s'.entries (indexDb name i.name) = s.entries (indexDb name i.name) ∧
      ∀ p ∈ i.properties, ∀ q, storedProperty e.properties p = some q →
        storedProperty e'.properties p = some q) ∨
    (s'.entries (indexDb name i.name) = .empty ∧ ∀ e, s.info.find name = some e → i ∈ e.indexes →
      ¬ ∀ p ∈ i.properties, ∃ ps : PropertySchema, ps.name = some p ∧ ps ∈ e.properties ∧
        ps ∈ e'.properties) := by
  obtain ⟨o, memO, namedO, indexesO⟩ := origin_of_performMigration h stored'
  -- with no index of that name before, the database was empty
  have empty_before (fresh : ∀ e, s.info.find name = some e → ∀ i₀ ∈ e.indexes, i₀.name ≠ i.name) :
      s.entries (indexDb name i.name) = .empty := by
    apply vacant
    intro n e₀ stored₀ i₀ there₀ same
    obtain ⟨mem₀, name₀⟩ := Storage.mem_of_find_info stored₀
    by_cases own : n = name
    · subst own
      exact fresh e₀ stored₀ i₀ there₀ (indexDb_injective n same)
    · rw [← name₀] at same own
      rw [← namedO] at same own
      exact unambiguous.apart (List.mem_append_left _ mem₀) memO own there₀ (indexesO ▸ there') same
  obtain ⟨done, rest, rfl, outcome⟩ := entries_of_stored h unambiguous
  obtain ⟨info, entries⟩ := outcome name e' stored'
  have entry := entries i there'
  cases found : lastNamed done name with
  | none =>
    rw [found] at info
    have none_dropped : ¬ ∃ c ∈ done, c.name = name ∧ ∃ e, s.info.find name = some e ∧
        i.name ∈ (c.findChanges e).dropIndexes := by
      rintro ⟨c, mem, called, -⟩
      exact lastNamed_eq_none found c mem called
    rw [if_neg none_dropped] at entry
    exact Or.inl ⟨e', info, there', entry, fun _ _ _ placed => placed⟩
  | some c =>
    rw [found] at info
    obtain ⟨mem, called⟩ := lastNamed_eq_some found
    subst info
    have there : i ∈ c.indexes := there'
    have verifiedC := IsarSchema.verified_of_verifySchemas verified c (List.mem_append_left _ mem)
    have alone {c' : IsarSchema} (mem' : c' ∈ done) (called' : c'.name = name) : c' = c :=
      List.inj_on_of_nodup_map names (List.mem_append_left _ mem') (List.mem_append_left _ mem)
        (called'.trans called.symm)
    cases stored : s.info.find name with
    | none =>
      right
      refine ⟨?_, by rintro e ⟨⟩⟩
      rw [entry, empty_before]
      · exact ite_self _
      · intro e₀ stored₀
        rw [stored] at stored₀
        cases stored₀
    | some e =>
      have oldNames := apartNames name e stored
      have oldIndexes := indexNames name e stored
      by_cases stays : i ∈ e.indexes ∧ c.staysIndex e i = true
      · left
        obtain ⟨old, stays⟩ := stays
        refine ⟨e, rfl, old, ?_, fun p memP q placed => ?_⟩
        · rw [entry, if_neg]
          rintro ⟨c', mem', called', e₀, stored₀, drop⟩
          obtain rfl := alone mem' called'
          rw [stored] at stored₀
          cases stored₀
          rw [IsarSchema.dropIndexes_eq, KeyedDiff.mem_dropped] at drop
          obtain ⟨i₁, there₁, leaves, same⟩ := drop
          obtain rfl := List.inj_on_of_nodup_map oldIndexes there₁ old same
          rw [stays] at leaves
          cases leaves
        · exact storedProperty_merged verifiedC.properties oldNames
            ((IsarSchema.staysIndex_iff_of_mem verifiedC.indexes there).mp stays p memP) placed
      · right
        constructor
        · by_cases old : ∃ i₁ ∈ e.indexes, i₁.name = i.name
          · obtain ⟨i₁, there₁, same⟩ := old
            rw [entry, if_pos]
            refine ⟨c, mem, called, e, stored, ?_⟩
            rw [IsarSchema.dropIndexes_eq, KeyedDiff.mem_dropped]
            refine ⟨i₁, there₁, ?_, same⟩
            rw [Bool.eq_false_iff]
            intro stays₁
            obtain rfl := List.inj_on_of_nodup_map verifiedC.indexes
              (IsarSchema.mem_of_staysIndex stays₁) there same
            exact stays ⟨there₁, stays₁⟩
          · rw [entry, empty_before]
            · exact ite_self _
            · intro e₀ stored₀ i₀ there₀ same
              rw [stored] at stored₀
              cases stored₀
              exact old ⟨i₀, there₀, same⟩
        · rintro _ ⟨⟩ old again
          apply stays
          refine ⟨old, (IsarSchema.staysIndex_iff_of_mem verifiedC.indexes there).mpr ?_⟩
          intro p memP drop
          obtain ⟨ps, named, memOld, memNew⟩ := again p memP
          have hasName : ps.name.isSome := by rw [named]; rfl
          have perm := perm_named_keptProperties (some e) verifiedC.properties fun e' eq => by
            cases eq
            exact oldNames
          have kept : ps ∈ c.named := perm.subset (List.mem_filter.mpr ⟨memNew, hasName⟩)
          have listed : some p ∈ (c.findChanges e).dropProperties.map some :=
            List.mem_map_of_mem drop
          rw [IsarSchema.map_dropProperties, KeyedDiff.mem_dropped] at listed
          obtain ⟨p₀, mem₀, leaves, same⟩ := listed
          obtain rfl := List.inj_on_of_nodup_map oldNames mem₀
            (List.mem_filter.mpr ⟨memOld, hasName⟩) (same.trans named.symm)
          rw [IsarSchema.staysProperty_of_mem (IsarSchema.nodup_named verifiedC.properties) kept]
            at leaves
          cases leaves

/-- A migration keeps the index databases in order. -/
theorem indexed_of_performMigration {d : Database} (laid : d.Laid) (sound : d.Sound)
    (indexed : d.Indexed) (verified : IsarSchema.verifySchemas schemas = .ok ())
    (names : (schemas.map IsarSchema.name).Nodup)
    (unambiguous : Unambiguous (d.storage.schemas ++ schemas))
    (h : performMigration refused schemas d.storage = (s', r)) :
    (∀ name e, s'.info.find name = some e → ∀ i ∈ e.indexes, (storedIndex e i).isSome) ∧
      Unambiguous s'.schemas ∧ s'.Vacant := by
  refine ⟨fun name e stored i there => ?_, unambiguous_of_performMigration h unambiguous,
    fun db unowned => ?_⟩
  · rcases find_of_performMigration h stored with same | ⟨c, mem, named, rfl⟩
    · exact indexed.placed name e same i there
    · exact isSome_storedIndex_saved verified mem (fun e eq => laid.stored name e eq) there
  · obtain ⟨done, rest, s₁, rfl, committed, ends⟩ := parts_of_performMigration h
    have loop : s₁.entries db = .empty ∨ ∃ n e i, s₁.info.find n = some e ∧ i ∈ e.indexes ∧
        indexDb n i.name = db ∧ d.storage.info.find n = some e ∧ lastNamed done n = none := by
      rw [committed.entries]
      split
      · exact Or.inl rfl
      · rename_i kept
        by_contra open_
        rw [not_or] at open_
        obtain ⟨some_, open_⟩ := open_
        apply some_
        apply indexed.vacant
        intro n e stored i there same
        have info := committed.info n
        cases found : lastNamed done n with
        | none =>
          rw [found] at info
          exact open_ ⟨n, e, i, info.trans stored, there, same, stored, found⟩
        | some c =>
          rw [found] at info
          obtain ⟨mem, rfl⟩ := lastNamed_eq_some found
          have info : s₁.info.find c.name =
            some (savedSchema c (keptProperties (d.storage.info.find c.name) c)) := info
          by_cases again : ∃ i' ∈ c.indexes, i'.name = i.name
          · -- the requested schema has an index of this name, and is stored in the end
            obtain ⟨i', there', same'⟩ := again
            rcases ends with ⟨rfl, -⟩ | ⟨rfl, cols, -, -, removed⟩
            · exact unowned c.name (savedSchema c (keptProperties (d.storage.info.find c.name) c)) info
                i'
                there' (same'.symm ▸ same)
            · rw [List.append_nil] at removed
              refine unowned c.name (savedSchema c (keptProperties (d.storage.info.find c.name) c)) ?_
                i'
                there' (same'.symm ▸ same)
              rw [(removed_of_foldlM removed).info, if_neg]
              · exact info
              · intro listed
                obtain ⟨e₀, mem₀, same₀⟩ := List.mem_map.mp listed
                have missing := (List.mem_filter.mp mem₀).2
                have : (done.any fun schema => schema.name == e₀.name) = true :=
                  List.any_eq_true.mpr ⟨c, mem, beq_iff_eq.mpr same₀.symm⟩
                rw [this] at missing
                cases missing
          · refine kept ⟨c, mem, mem_droppedDbs.mpr ⟨e, stored, i.name, ?_, same⟩⟩
            rw [IsarSchema.dropIndexes_eq, KeyedDiff.mem_dropped]
            refine ⟨i, there, Bool.eq_false_iff.mpr fun stays => ?_, rfl⟩
            exact again ⟨i, IsarSchema.mem_of_staysIndex stays, rfl⟩
    rcases loop with empty | ⟨n, e, i, stored₁, there, same, stored, unasked⟩
    · rcases ends with ⟨rfl, -⟩ | ⟨-, cols, -, -, removed⟩
      · exact empty
      · rw [entries_of_removed removed, empty]
        exact ite_self _
    · rcases ends with ⟨rfl, -⟩ | ⟨rfl, cols, -, -, removed⟩
      · exact absurd same (unowned n e stored₁ i there)
      · obtain ⟨mem, rfl⟩ := Storage.mem_of_find_info stored
        rw [List.append_nil] at removed
        rw [entries_of_removed removed, if_pos]
        refine ⟨e, List.mem_filter.mpr ⟨mem, ?_⟩, i, there, same⟩
        simp only [Bool.not_eq_true', List.any_eq_false, beq_iff_eq]
        exact lastNamed_eq_none unasked

/-- A migration opens every collection with the indexes of its stored schema. -/
theorem opened_of_migration {d : Database} {cols : List (NativeCollection × Int64)} (laid : d.Laid)
    (verified : IsarSchema.verifySchemas schemas = .ok ())
    (names : (schemas.map IsarSchema.name).Nodup)
    (unambiguous : Unambiguous (d.storage.schemas ++ schemas))
    (h : performMigration refused schemas d.storage = (s', .ok cols)) :
    ∀ col ∈ cols.map Prod.fst, ∃ e, s'.info.find col.name = some e ∧ Indexed e col ∧
      Present s' e := by
  intro col listed
  obtain ⟨entry, mem, rfl⟩ := List.mem_map.mp listed
  obtain ⟨done, rest, s₁, rfl, committed, ends⟩ := parts_of_performMigration h
  rcases ends with ⟨-, e, failed⟩ | ⟨rfl, cols', eq, loop, removed⟩
  · cases failed
  · cases eq
    rw [List.append_nil] at *
    have oldNames (e : IsarSchema) (memE : e ∈ d.storage.schemas) :
        (e.named.map PropertySchema.name).Nodup :=
      laid.stored e.name e (Storage.find_info_of_mem memE)
    obtain ⟨c, memC, made⟩ := indexed_of_migrateSchemas verified (fun _ mem => mem) oldNames
      (by simp) loop entry mem
    rw [d.storage.find?_schemas] at made
    obtain ⟨c', memC', same, stored⟩ := stored_of_removed committed (removed_of_foldlM removed) memC
    obtain rfl := List.inj_on_of_nodup_map names memC' memC same
    refine ⟨_, made.name ▸ stored, made, ?_⟩
    have present := present_of_migrateSchemas
      (by simpa using unambiguous : Unambiguous (d.storage.schemas ++ ([] ++ done)))
      (by simpa using names) (by simp) loop c' (by simpa using memC)
    have gone (e : IsarSchema) (memE : e ∈ d.storage.schemas.filter fun c =>
        !done.any fun schema => schema.name == c.name) : c'.name ≠ e.name := by
      intro same
      have missing := (List.mem_filter.mp memE).2
      have : (done.any fun schema => schema.name == e.name) = true :=
        List.any_eq_true.mpr ⟨c', memC, beq_iff_eq.mpr same⟩
      rw [this] at missing
      cases missing
    have left := present.of_removed gone (fun e memE i there i' there' => unambiguous.apart
      (List.mem_append_right _ memC) (List.mem_append_left _ (List.mem_filter.mp memE).1)
      (gone e memE) there there') removed
    exact ⟨left.primary, left.index⟩

end

/-! ## Steps -/

section
variable {xxh3_64 : Bytes → UInt64} {d d' : Database} {event : Event}

theorem objects_of_commit {s : Storage} {txn : NativeTxn} {db : Db}
    (there : (s.primary db).isSome) : (s.commitTxn txn).objects db = txn.primary db := by
  obtain ⟨m, stored⟩ := Option.isSome_iff_exists.mp there
  simp [Storage.objects, Storage.commitTxn, stored]

theorem entries_of_commit {s : Storage} {txn : NativeTxn} {db : Db}
    (there : (s.index db).isSome) : (s.commitTxn txn).entries db = txn.index db := by
  obtain ⟨m, stored⟩ := Option.isSome_iff_exists.mp there
  simp [Storage.entries, Storage.commitTxn, stored]

/-- An index of a collection is one of its stored schema, and the other way round. -/
theorem mem_indexes_iff {e : IsarSchema} {col : NativeCollection} (indexed : Indexed e col)
    {index : NativeIndex} : index ∈ col.indexes ↔ ∃ i ∈ e.indexes, storedIndex e i = some index := by
  have there := indexed.indexes
  constructor
  · intro mem
    exact mem_of_mapM there index mem
  · rintro ⟨i, mem, placed⟩
    obtain ⟨index', mem', placed'⟩ := exists_of_mapM there i mem
    rw [placed] at placed'
    cases placed'
    exact mem'

theorem Database.Indexed.new : Database.new.Indexed where
  placed := by
    rintro name e ⟨⟩
  apart := by
    rintro c ⟨⟩
  vacant := fun _ _ => rfl
  opened := by
    rintro col ⟨⟩

theorem Database.Indexed.step (indexed : d.Indexed) (laid : d.Laid) (sound : d.Sound)
    (plain : d.Plain event) (h : Database.Step xxh3_64 d event d') : d'.Indexed := by
  cases h with
  | abort => exact indexed
  | migrate verified names done =>
    obtain ⟨placed, apart, vacant⟩ :=
      indexed_of_performMigration laid sound indexed verified names plain done
    exact ⟨placed, apart, vacant, opened_of_migration laid verified names plain done⟩
  | fail verified names failed =>
    obtain ⟨placed, apart, vacant⟩ :=
      indexed_of_performMigration laid sound indexed verified names plain failed
    refine ⟨placed, apart, vacant, ?_⟩
    rintro col ⟨⟩
  | @commit col _ _ txn opened done =>
    have within := NativeCollection.Within.run done
    refine ⟨indexed.placed, indexed.apart, fun db unowned => ?_, fun col' listed => ?_⟩
    · obtain ⟨e, stored, own, -⟩ := indexed.opened col opened
      have other : db ∉ col.indexes.map NativeIndex.db := by
        intro listed
        obtain ⟨index, mem, same⟩ := List.mem_map.mp listed
        obtain ⟨i, there, placed⟩ := (mem_indexes_iff own).mp mem
        obtain ⟨-, -, named⟩ := mapM_storedProperty_of_storedIndex placed
        refine unowned col.name e stored i there ?_
        rw [← same, named, own.name]
      rw [entries_commitTxn (within.index db other)]
      exact indexed.vacant db unowned
    · obtain ⟨e, stored, own, present⟩ := indexed.opened col' listed
      refine ⟨e, stored, own, ⟨fun embedded => ?_, fun i there => ?_⟩⟩
      · simpa [Storage.commitTxn] using present.primary embedded
      · simpa [Storage.commitTxn] using present.index i there

/-- Every entry of a stored index is one of a stored object under its key. -/
def Storage.Backed (xxh3_64 : Bytes → UInt64) (s : Storage) : Prop :=
  ∀ name e, s.info.find name = some e → ∀ i ∈ e.indexes, ∀ index, storedIndex e i = some index →
    ∀ key value, (s.entries index.db).Has key value → ∃ id o, value = toIdBytes id ∧
      s.get name id = some o ∧ index.keyOf xxh3_64 o = some key

/-- A later storage has an index under the same keys, and an object has its entry there unless it is
one of the earlier storage that has none there. -/
def Storage.IndexSucceeds (xxh3_64 : Bytes → UInt64) (s s' : Storage) (name : String)
    (i : IndexSchema) (index : NativeIndex) : Prop :=
  (∃ e', s'.info.find name = some e' ∧ i ∈ e'.indexes ∧ storedIndex e' i = some index) ∧
    ∀ id o key, s'.get name id = some o → index.keyOf xxh3_64 o = some key →
      (s.get name id = some o → (s.entries index.db).Has key (toIdBytes id)) →
      (s'.entries index.db).Has key (toIdBytes id)

theorem Storage.IndexSucceeds.trans {s s₁ s' : Storage} {name : String} {i : IndexSchema}
    {index : NativeIndex} (first : s.IndexSucceeds xxh3_64 s₁ name i index)
    (second : s₁.IndexSucceeds xxh3_64 s' name i index) :
    s.IndexSucceeds xxh3_64 s' name i index := by
  refine ⟨second.1, fun id o key stored keyed before => ?_⟩
  exact second.2 id o key stored keyed fun stored₁ => first.2 id o key stored₁ keyed before

/-- One migration: what it keeps of an index is as it was, and what it creates has no entries. -/
theorem index_step_of_migration {refused : Faults} {schemas : List IsarSchema} {s' : Storage}
    {r : Result (List (NativeCollection × Int64))} (laid : d.Laid) (sound : d.Sound)
    (indexed : d.Indexed) (verified : IsarSchema.verifySchemas schemas = .ok ())
    (names : (schemas.map IsarSchema.name).Nodup)
    (unambiguous : Unambiguous (d.storage.schemas ++ schemas))
    (h : performMigration refused schemas d.storage = (s', r))
    (backed : d.storage.Backed xxh3_64) :
    s'.Backed xxh3_64 ∧ ∀ name e e' i, d.storage.info.find name = some e →
      s'.info.find name = some e' → i ∈ e.indexes → i ∈ e'.indexes →
      (∀ p ∈ i.properties, ∃ ps : PropertySchema, ps.name = some p ∧ ps ∈ e.properties ∧
        ps ∈ e'.properties) →
      ∀ index, storedIndex e i = some index →
        d.storage.IndexSucceeds xxh3_64 s' name i index := by
  have objects {name : String} {e' : IsarSchema} (stored' : s'.info.find name = some e') (id : Int64) :
      s'.get name id = d.storage.get name id := by
    unfold Storage.get
    rw [objects_of_performMigration h (by rw [stored']; rfl)]
  have kept {name : String} {e e' : IsarSchema} {i : IndexSchema} {index : NativeIndex}
      (stored : d.storage.info.find name = some e) (stored' : s'.info.find name = some e')
      (places : ∀ p ∈ i.properties, ∀ q, storedProperty e.properties p = some q →
        storedProperty e'.properties p = some q) (placed : storedIndex e i = some index) :
      storedIndex e' i = some index ∧ index.db = indexDb name i.name := by
    obtain ⟨-, named⟩ := Storage.mem_of_find_info stored
    obtain ⟨-, named'⟩ := Storage.mem_of_find_info stored'
    refine ⟨storedIndex_of_imp (named'.trans named.symm) places placed, ?_⟩
    rw [(mapM_storedProperty_of_storedIndex placed).2.2, named]
  constructor
  · intro name e' stored' i there' index' placed' key value entry
    obtain ⟨-, named'⟩ := Storage.mem_of_find_info stored'
    have db : index'.db = indexDb name i.name := by
      rw [(mapM_storedProperty_of_storedIndex placed').2.2, named']
    rw [db] at entry
    rcases index_of_performMigration verified names laid.stored sound.indexes indexed.vacant
      unambiguous h stored' there' with ⟨e, stored, there, same, places⟩ | ⟨empty, -⟩
    · obtain ⟨index, placed⟩ := Option.isSome_iff_exists.mp (indexed.placed name e stored i there)
      obtain ⟨placed'', -⟩ := kept stored stored' places placed
      rw [placed'] at placed''
      cases placed''
      rw [same, ← db] at entry
      obtain ⟨id, o, rfl, object, keyed⟩ := backed name e stored i there index' placed key value entry
      exact ⟨id, o, rfl, (objects stored' id).trans object, keyed⟩
    · rw [empty] at entry
      simp at entry
  · intro name e e' i stored stored' there there' properties index placed
    rcases index_of_performMigration verified names laid.stored sound.indexes indexed.vacant
      unambiguous h stored' there' with ⟨e₀, stored₀, -, same, places⟩ | ⟨-, fresh⟩
    · rw [stored] at stored₀
      cases stored₀
      obtain ⟨placed', db⟩ := kept stored stored' places placed
      refine ⟨⟨e', stored', there', placed'⟩, fun id o key object keyed before => ?_⟩
      rw [objects stored'] at object
      rw [db, same, ← db]
      exact before object
    · exact absurd properties (fresh e stored there)

/-- When a transaction begins, an index knows the objects of which it has an entry. -/
theorem Database.Indexed.tracked {col : NativeCollection} (indexed : d.Indexed)
    (opened : col ∈ d.collections) (backed : d.storage.Backed xxh3_64) (counters : String → Int64) :
    NativeCollection.Tracked xxh3_64
      (fun index id => ∃ key, (d.storage.entries index.db).Has key (toIdBytes id)) col
      (d.storage.beginTxn counters) := by
  obtain ⟨e, stored, own, present⟩ := indexed.opened col opened
  intro index mem
  obtain ⟨i, there, placed⟩ := (mem_indexes_iff own).mp mem
  obtain ⟨-, db⟩ := own.db (List.ne_nil_of_mem there)
  rw [NativeCollection.objects_of_db db]
  exact Tracks.of_backed (fun _ _ => toIdBytes_injective)
    (backed col.name e stored i there index placed)

/-- One transaction: no entry is left without its object, and what it writes is in every index. -/
theorem index_step_of_commit {col : NativeCollection} {counters : String → Int64}
    {operations : List Operation} {txn : NativeTxn} (laid : d.Laid) (sound : d.Sound)
    (indexed : d.Indexed)
    (opened : col ∈ d.collections)
    (done : col.run xxh3_64 (d.storage.beginTxn counters) operations = .ok txn)
    (backed : d.storage.Backed xxh3_64) :
    (d.storage.commitTxn txn).Backed xxh3_64 ∧ ∀ name e i, d.storage.info.find name = some e →
      i ∈ e.indexes → ∀ index, storedIndex e i = some index →
        d.storage.IndexSucceeds xxh3_64 (d.storage.commitTxn txn) name i index := by
  obtain ⟨e, stored, own, present⟩ := indexed.opened col opened
  have within := NativeCollection.Within.run done
  have nodup : (col.indexes.map NativeIndex.db).Nodup := by
    obtain ⟨_, verified, c, listed, openedC⟩ := laid.opened col opened
    exact openedC.nodup_db verified listed
  -- the objects of the collection, where it has an index at all
  have objects {index : NativeIndex} (mem : index ∈ col.indexes) :
      (∀ counters, col.objects (d.storage.beginTxn counters) = d.storage.get col.name) ∧
        col.objects txn = (d.storage.commitTxn txn).get col.name := by
    obtain ⟨i, there, -⟩ := (mem_indexes_iff own).mp mem
    obtain ⟨embedded, db⟩ := own.db (List.ne_nil_of_mem there)
    refine ⟨fun counters => NativeCollection.objects_of_db db, ?_⟩
    funext id
    rw [NativeCollection.objects_of_db db, Storage.get, objects_of_commit]
    · rfl
    · rw [own.name]
      exact present.primary embedded
  have entries {index : NativeIndex} (mem : index ∈ col.indexes) :
      (d.storage.commitTxn txn).entries index.db = txn.index index.db := by
    obtain ⟨i, there, placed⟩ := (mem_indexes_iff own).mp mem
    apply entries_of_commit
    rw [(mapM_storedProperty_of_storedIndex placed).2.2]
    exact present.index i there
  obtain ⟨known, tracked', since⟩ := (indexed.tracked opened backed counters).run nodup done
  have other {name : String} {e₀ : IsarSchema} (stored₀ : d.storage.info.find name = some e₀)
      (differ : name ≠ col.name) :
      (∀ id, (d.storage.commitTxn txn).get name id = d.storage.get name id) ∧
        ∀ i ∈ e₀.indexes, (d.storage.commitTxn txn).entries (indexDb name i.name) =
          d.storage.entries (indexDb name i.name) := by
    constructor
    · intro id
      unfold Storage.get
      rw [objects_commitTxn]
      apply within.primary
      intro primary
      obtain ⟨c, _, openedFor, -⟩ := sound.opened col opened
      exact differ ((openedFor.db name primary).trans openedFor.name.symm)
    · intro i there
      apply entries_commitTxn
      apply within.index
      intro listed
      obtain ⟨index, mem, same⟩ := List.mem_map.mp listed
      obtain ⟨i', there', placed⟩ := (mem_indexes_iff own).mp mem
      rw [(mapM_storedProperty_of_storedIndex placed).2.2, ← own.name] at same
      exact indexed.apart.indexDb_ne stored stored₀ differ.symm there' there same
  constructor
  · intro name e₀ stored₀ i there index placed key value entry
    by_cases same : name = col.name
    · subst same
      cases stored.symm.trans stored₀
      have mem := (mem_indexes_iff own).mpr ⟨i, there, placed⟩
      rw [entries mem] at entry
      obtain ⟨id, o, rfl, -, object, keyed⟩ := (tracked' index mem key value).mp entry
      rw [(objects mem).2] at object
      exact ⟨id, o, rfl, object, keyed⟩
    · obtain ⟨get, entries⟩ := other stored₀ same
      obtain ⟨-, named⟩ := Storage.mem_of_find_info stored₀
      have db := (mapM_storedProperty_of_storedIndex placed).2.2
      rw [named] at db
      rw [db, entries i there, ← db] at entry
      obtain ⟨id, o, rfl, object, keyed⟩ := backed name e₀ stored₀ i there index placed key value
        entry
      exact ⟨id, o, rfl, (get id).trans object, keyed⟩
  · intro name e₀ i stored₀ there index placed
    refine ⟨⟨e₀, stored₀, there, placed⟩, fun id o key object keyed before => ?_⟩
    by_cases same : name = col.name
    · subst same
      cases stored.symm.trans stored₀
      have mem := (mem_indexes_iff own).mpr ⟨i, there, placed⟩
      rw [entries mem]
      rw [← (objects mem).2] at object
      refine (tracked' index mem key _).mpr ⟨id, o, rfl, since index id o object ?_, object, keyed⟩
      rw [(objects mem).1]
      by_cases unchanged : d.storage.get col.name id = some o
      · exact Or.inl ⟨key, before unchanged⟩
      · exact Or.inr unchanged
    · obtain ⟨get, entries⟩ := other stored₀ same
      obtain ⟨-, named⟩ := Storage.mem_of_find_info stored₀
      have db := (mapM_storedProperty_of_storedIndex placed).2.2
      rw [named] at db
      rw [db, entries i there, ← db]
      exact before ((get id).symm.trans object)

/-- One step of either kind. -/
theorem index_step (laid : d.Laid) (sound : d.Sound) (indexed : d.Indexed)
    (plain : d.Plain event) (h : Database.Step xxh3_64 d event d')
    (backed : d.storage.Backed xxh3_64) :
    d'.storage.Backed xxh3_64 ∧ ∀ name e e' i, d.storage.info.find name = some e →
      d'.storage.info.find name = some e' → i ∈ e.indexes → i ∈ e'.indexes →
      (∀ p ∈ i.properties, ∃ ps : PropertySchema, ps.name = some p ∧ ps ∈ e.properties ∧
        ps ∈ e'.properties) →
      ∀ index, storedIndex e i = some index →
        d.storage.IndexSucceeds xxh3_64 d'.storage name i index := by
  cases h with
  | abort =>
    refine ⟨backed, fun name e e' i stored _ there _ _ index placed => ?_⟩
    exact ⟨⟨e, stored, there, placed⟩, fun id o key object _ before => before object⟩
  | migrate verified names done =>
    exact index_step_of_migration laid sound indexed verified names plain done backed
  | fail verified names failed =>
    exact index_step_of_migration laid sound indexed verified names plain failed backed
  | commit opened done =>
    obtain ⟨backed', succeeds⟩ := index_step_of_commit laid sound indexed opened done backed
    exact ⟨backed', fun name e _ i stored _ there _ _ => succeeds name e i stored there⟩

end

/-! ## Runs -/

section
variable {xxh3_64 : Bytes → UInt64}

/-- What every step of a run keeps. -/
structure Database.Kempt (xxh3_64 : Bytes → UInt64) (d : Database) : Prop where
  laid : d.Laid
  sound : d.Sound
  indexed : d.Indexed
  backed : d.storage.Backed xxh3_64

theorem Database.Kempt.new : Database.new.Kempt xxh3_64 where
  laid := Database.Laid.new
  sound := Database.Sound.new
  indexed := Database.Indexed.new
  backed := by
    rintro name e ⟨⟩

theorem Database.Kempt.step {d d' : Database} {event : Event} (kempt : d.Kempt xxh3_64)
    (h : Database.Step xxh3_64 d event d' ∧ d.Plain event) : d'.Kempt xxh3_64 where
  laid := kempt.laid.step h.1
  sound := kempt.sound.step h.1
  indexed := kempt.indexed.step kempt.laid kempt.sound h.2 h.1
  backed := (index_step kempt.laid kempt.sound kempt.indexed h.2 h.1 kempt.backed).1

/-- An index that a history keeps goes on under the same keys. -/
theorem indexSucceeds_of_trace {d d' : Database} {passed : List (Event × Database)} {name : String}
    {e : IsarSchema} {i : IndexSchema} {index : NativeIndex} (kempt : d.Kempt xxh3_64)
    (history : Trace (fun d event d' => Database.Step xxh3_64 d event d' ∧ d.Plain event) d passed
      d') (keeps : KeepsIndex d passed name i) (stored : d.storage.info.find name = some e)
    (there : i ∈ e.indexes) (placed : storedIndex e i = some index) :
    d.storage.IndexSucceeds xxh3_64 d'.storage name i index := by
  induction history generalizing e with
  | nil => exact ⟨⟨e, stored, there, placed⟩, fun id o key object _ before => before object⟩
  | @cons d d₁ d' event passed one rest ih =>
    obtain ⟨all, properties⟩ := keeps
    obtain ⟨e₁, stored₁, there₁⟩ := all _ List.mem_cons_self
    have same (p : String) (mem : p ∈ i.properties) : ∃ ps : PropertySchema, ps.name = some p ∧
        ps ∈ e.properties ∧ ps ∈ e₁.properties := by
      obtain ⟨ps, named, ⟨e₀, stored₀, mem₀⟩, later⟩ := properties p mem
      obtain ⟨e₂, stored₂, mem₂⟩ := later _ List.mem_cons_self
      cases stored.symm.trans stored₀
      cases stored₁.symm.trans stored₂
      exact ⟨ps, named, mem₀, mem₂⟩
    have first := (index_step kempt.laid kempt.sound kempt.indexed one.2 one.1 kempt.backed).2 name
      e e₁ i stored stored₁ there there₁ same index placed
    obtain ⟨e₂, stored₂, -, placed₁⟩ := first.1
    cases stored₁.symm.trans stored₂
    refine first.trans (ih (kempt.step one) ⟨?_, ?_⟩ stored₁ there₁ placed₁)
    · exact fun v mem => all v (List.mem_cons_of_mem _ mem)
    · intro p mem
      obtain ⟨ps, named, -, later⟩ := properties p mem
      exact ⟨ps, named, later _ List.mem_cons_self, fun v mem =>
        later v (List.mem_cons_of_mem _ mem)⟩

/-- In every run, an index of a stored schema has no entry without a stored object of its key; and
in every history that keeps the index, an object of the last state has its entry unless it is one of
the first state that had none. -/
theorem index_history {before : Database} {events : List Event}
    (run : Run (fun d event d' => Database.Step xxh3_64 d event d' ∧ d.Plain event) Database.new
      events before) {name : String} {e : IsarSchema} {i : IndexSchema}
    (stored : before.storage.info.find name = some e) (there : i ∈ e.indexes) :
    ∃ index, storedIndex e i = some index ∧
      (∀ key value, (before.storage.entries index.db).Has key value → ∃ id o,
        value = toIdBytes id ∧ before.storage.get name id = some o ∧
        index.keyOf xxh3_64 o = some key) ∧
      ∀ passed after, Trace (fun d event d' => Database.Step xxh3_64 d event d' ∧ d.Plain event)
        before passed after → KeepsIndex before passed name i →
        ∀ id o key, after.storage.get name id = some o → index.keyOf xxh3_64 o = some key →
          (before.storage.get name id = some o →
            (before.storage.entries index.db).Has key (toIdBytes id)) →
          (after.storage.entries index.db).Has key (toIdBytes id) := by
  have kempt : before.Kempt xxh3_64 := run.invariant (fun _ _ _ kempt one => kempt.step one)
    Database.Kempt.new
  obtain ⟨index, placed⟩ := Option.isSome_iff_exists.mp (kempt.indexed.placed name e stored i there)
  refine ⟨index, placed, kempt.backed name e stored i there index placed, ?_⟩
  intro passed after history keeps
  exact (indexSucceeds_of_trace kempt history keeps stored there placed).2

end

/-! ## Tasks -/

/-- The storage behind the migration to the tasks. -/
def dueStorage : Storage :=
  (performMigration noFaults [countedBy "Task" "due"] Database.new.storage).1

def dueIndex : NativeIndex where
  name := "due"
  properties := [⟨.long, 0, none⟩]
  unique := true
  hash := false
  db := "_Task_due"

def tasks : NativeCollection :=
  .new 0 "Task" (some "id") [("due", ⟨.long, 0, none⟩)] [dueIndex] (some "Task")

/-- A task that is due at the fifth second. -/
def dueTask : Bytes :=
  ((IsarSerializer.new [] 0 8).bind fun s => s.writeLong 0 5).elim [] IsarSerializer.finish

/-- Tasks with a title besides. -/
def titledTasks : IsarSchema :=
  { countedBy "Task" "due" with
    properties := [⟨some "due", .long, none⟩, ⟨some "title", .string, none⟩] }

/-- A task is saved, and then the tasks get a title. -/
theorem index_history_on_tasks : ∃ txn s cols,
    tasks.run (fun _ => 0) (dueStorage.beginTxn fun _ => 1) [.save 1 dueTask] = .ok txn ∧
      performMigration noFaults [titledTasks] (dueStorage.commitTxn txn) = (s, .ok cols) ∧
      ∃ key, dueIndex.keyOf (fun _ => 0) dueTask = some key ∧
        (s.entries "_Task_due").Has key (toIdBytes 1) := by
  obtain ⟨⟨txn, s, cols⟩, h, found⟩ := exists_of_succeedsWith
    (do
      let txn ← tasks.run (fun _ => 0) (dueStorage.beginTxn fun _ => 1) [.save 1 dueTask]
      match performMigration noFaults [titledTasks] (dueStorage.commitTxn txn) with
      | (s, .ok cols) => pure (txn, s, cols)
      | (_, .error e) => .error e)
    (fun r => r.2.1.get "Task" 1 = some dueTask ∧ r.2.1.info.find "Task" =
      some (savedSchema titledTasks titledTasks.properties)) (by decide +kernel)
  obtain ⟨saved, done, h⟩ := bind_eq_ok.mp h
  obtain ⟨object, info⟩ := of_decide_eq_true found
  split at h
  rotate_left
  · cases h
  rename_i s₁ cols₁ migrated
  cases h
  have single : Unambiguous [countedBy "Task" "due"] :=
    (unambiguous_iff (by decide)).mpr (by decide)
  have single' : Unambiguous ((dueStorage.commitTxn txn).schemas ++ [titledTasks]) := by
    intro c mem c' mem' index _ index' _ rest name
    have named : ∀ c ∈ (dueStorage.commitTxn txn).schemas ++ [titledTasks], c.name = "Task" := by
      have schemas : (dueStorage.commitTxn txn).schemas =
        [savedSchema (countedBy "Task" "due") [⟨some "due", .long, none⟩]] := rfl
      simp [schemas, savedSchema, countedBy, titledTasks]
    rw [named c mem, named c' mem'] at name
    have lengths : "Task".length = "Task_".length + rest.length := by
      simpa using congrArg String.length name
    have longer : 4 = 5 + rest.length := lengths
    omega
  have run : Run (fun d event d' => Database.Step (fun _ => 0) d event d' ∧ d.Plain event)
      Database.new [.migrate noFaults [countedBy "Task" "due"]] ⟨dueStorage, [tasks]⟩ :=
    .cons ⟨@Database.Step.migrate _ _ noFaults [countedBy "Task" "due"] dueStorage [(tasks, 1)] rfl
      (by decide) rfl, single⟩ .nil
  have history : Trace (fun d event d' => Database.Step (fun _ => 0) d event d' ∧ d.Plain event)
      ⟨dueStorage, [tasks]⟩
      [(.operate "Task" [.save 1 dueTask], ⟨dueStorage.commitTxn txn, [tasks]⟩),
        (.migrate noFaults [titledTasks], ⟨s, cols.map Prod.fst⟩)]
      ⟨s, cols.map Prod.fst⟩ :=
    .cons ⟨@Database.Step.commit _ ⟨dueStorage, [tasks]⟩ tasks _ _ txn (List.mem_singleton_self tasks)
      done, trivial⟩ (.cons ⟨.migrate rfl (by decide) migrated, single'⟩ .nil)
  have stored : dueStorage.info.find "Task" =
      some (savedSchema (countedBy "Task" "due") [⟨some "due", .long, none⟩]) := rfl
  obtain ⟨index, placed, -, later⟩ := index_history run stored List.mem_cons_self
  obtain rfl : index = dueIndex := Option.some.inj (placed.symm.trans rfl)
  refine ⟨txn, s, cols, done, migrated, _, rfl, later _ _ history ⟨?_, ?_⟩ 1 dueTask _ object rfl ?_⟩
  · intro v mem
    rcases List.mem_pair.mp mem with rfl | rfl
    · exact ⟨_, rfl, by decide⟩
    · exact ⟨_, info, by decide⟩
  · intro p mem
    cases List.mem_singleton.mp mem
    refine ⟨⟨some "due", .long, none⟩, rfl, ⟨_, rfl, by decide⟩, fun v mem => ?_⟩
    rcases List.mem_pair.mp mem with rfl | rfl
    · exact ⟨_, rfl, by decide⟩
    · exact ⟨_, info, by decide⟩
  · intro stored
    cases stored

end IsarPlus.Native
