import IsarPlus.Native.Proofs.PartialUpdates
import IsarPlus.Native.Proofs.Separation
import IsarPlus.Native.Proofs.StoredIndexes

/-!
# Repeated updates

A text that is longer than the one in its place is appended, and the place of the old one is never
used again. So the size of an object comes from its updates, not from its values, and updates succeed
as long as what they append fits.
-/

namespace IsarPlus.Native
open ByteBuffer OrderedStore Scalar
open Sqlite (Written)

/-! ## Ids of entries -/

/-- Every entry of an index is an id. -/
def NativeTxn.HoldsIds (txn : NativeTxn) : Prop :=
  ∀ db key value, (txn.index db).Has key value → value.length = 8

/-- Every write of an operation leaves ids. -/
theorem NativeTxn.HoldsIds.preservedByWrites (c : NativeCollection) :
    NativeCollection.PreservedByWrites c NativeTxn.HoldsIds where
  aside holds _ index db key value has := holds db key value (index ▸ has)
  objects holds _ := holds
  putEntry {txn index key id} holds _ db key' value has := by
    rw [NativeTxn.index_putEntry, Function.update_apply] at has
    split at has
    · rename_i same
      subst same
      rcases MultiMap.has_put.mp has with ⟨-, rfl⟩ | old
      · exact length_leBytes 8 _
      · exact holds index.db key' value old
    · exact holds db key' value has
  deleteEntry {txn index key id} holds _ db key' value has := by
    rw [NativeTxn.index_deleteEntry, Function.update_apply] at has
    split at has
    · rename_i same
      subst same
      exact holds index.db key' value (MultiMap.has_del.mp has).2
    · exact holds db key' value has
  clearIndex {txn index} holds _ db key value has := by
    rw [NativeTxn.index_clearIndex, Function.update_apply] at has
    split at has
    · exact absurd has (MultiMap.has_empty _ _)
    · exact holds db key value has

/-- Every entry that is stored is an id. -/
def Storage.HoldsIds (s : Storage) : Prop :=
  ∀ db key value, (s.entries db).Has key value → value.length = 8

/-- A migration only empties indexes. -/
theorem entries_of_performMigration {refused : Faults} {schemas : List IsarSchema}
    {s s' : Storage} {r : Result (List (NativeCollection × Int64))}
    (h : performMigration refused schemas s = (s', r)) (db : Db) :
    s'.entries db = .empty ∨ s'.entries db = s.entries db := by
  obtain ⟨done, rest, s₁, -, committed, ends⟩ := parts_of_performMigration h
  have loop : s₁.entries db = .empty ∨ s₁.entries db = s.entries db := by
    rw [committed.entries]
    split
    · exact Or.inl rfl
    · exact Or.inr rfl
  rcases ends with ⟨rfl, -⟩ | ⟨-, cols, -, -, removed⟩
  · exact loop
  · rw [entries_of_removed removed]
    split
    · exact Or.inl rfl
    · exact loop

theorem Storage.HoldsIds.step {xxh3_64 : Bytes → UInt64} {d d' : Database} {event : Event}
    (holds : d.storage.HoldsIds) (one : Database.Step xxh3_64 d event d') :
    d'.storage.HoldsIds := by
  have migrated {refused : Faults} {schemas : List IsarSchema} {s' : Storage}
      {r : Result (List (NativeCollection × Int64))}
      (h : performMigration refused schemas d.storage = (s', r)) : s'.HoldsIds := by
    intro db key value has
    rcases entries_of_performMigration h db with empty | same
    · rw [empty] at has
      exact absurd has (MultiMap.has_empty _ _)
    · exact holds db key value (same ▸ has)
  cases one with
  | abort => exact holds
  | migrate verified names done => exact migrated done
  | fail verified names failed => exact migrated failed
  | @commit c counters operations txn opened done =>
    have start : (d.storage.beginTxn counters).HoldsIds := holds
    have ids : txn.HoldsIds := (NativeTxn.HoldsIds.preservedByWrites c).run start done
    intro db key value has
    unfold Storage.entries Storage.commitTxn at has
    cases stored : d.storage.index db with
    | none =>
      simp only [stored] at has
      exact absurd has (MultiMap.has_empty _ _)
    | some m =>
      simp only [stored] at has
      exact ids db key value has

/-! ## Extents -/

/-- An object grows at most to twice what three bytes address. -/
theorem Extent.length_le {x x' : Extent} {u : UInt16 × Option IsarValue} (h : x.update u = some x') :
    x'.length ≤ max x.length (2 ^ 25 + 4) := by
  have room := (Extent.update_eq_some.mp h).1
  unfold grown at room
  split at room
  · split at room
    · have same := Option.some.inj room
      omega
    · split at room
      · have appended := Option.some.inj room
        omega
      · cases room
  · have same := Option.some.inj room
    omega

theorem length_le_of_foldlM {updates : List (UInt16 × Option IsarValue)} {x x' : Extent}
    (h : updates.foldlM Extent.update x = some x') : x'.length ≤ max x.length (2 ^ 25 + 4) := by
  induction updates generalizing x with
  | nil =>
    cases h
    exact le_max_left _ _
  | cons u updates ih =>
    rw [List.foldlM_cons] at h
    obtain ⟨x₁, first, rest⟩ := Option.bind_eq_some_iff.mp h
    have bound := Extent.length_le first
    have later := ih rest
    omega

theorem lastUpdate_append (updates later : List (UInt16 × Option IsarValue)) (i : UInt16) :
    lastUpdate (updates ++ later) i = (lastUpdate later i).or (lastUpdate updates i) := by
  unfold lastUpdate
  rw [List.reverse_append, List.find?_append, Option.map_or]

theorem Updated.trans {updates later : List (UInt16 × Option IsarValue)} {i : UInt16} {t : DataType}
    {v v₁ v₂ : Written} (first : Updated updates i t v v₁) (second : Updated later i t v₁ v₂) :
    Updated (updates ++ later) i t v v₂ := by
  unfold Updated at first second ⊢
  rw [lastUpdate_append]
  cases last : lastUpdate later i with
  | some value =>
    rw [last] at second
    exact second
  | none =>
    rw [last] at second
    obtain rfl := second
    exact first

section
variable {xxh3_64 : Bytes → UInt64} {before d : Database} {passed : List (Event × Database)}
  {old c : NativeCollection} {n : Nat} {values values₁ values₂ : List StoredValue}
  {object : Bytes} {updates later : List (UInt16 × Option IsarValue)}

/-- Updates of nothing leave an object that has all slots as it is. -/
theorem Alive.rewrote_nil (since : Since xxh3_64 before d passed old)
    (alive : Alive xxh3_64 before d passed old n values object) (mem : c ∈ d.collections)
    (named : c.name = old.name) (smaller : c.staticSize ≤ n) : Rewrote c n [] values values := by
  intro i name q names
  have own := List.mem_of_getElem? names.2
  have slot := (since.laid'.collection mem).inside _ own
  have positive := q.dataType.staticSize_pos
  simp only at slot
  obtain ⟨p, v, has, type, offset, -⟩ := alive.hasFor mem named own (by omega)
  exact ⟨p, v, v, has, type, offset, Or.inl rfl, rfl, Or.inl has⟩

/-- Updates of an object that has all slots, behind earlier ones. -/
theorem Rewrote.trans {all : List NativeCollection} {object₁ : Bytes} {n₁ : Nat} (laid : c.Laid)
    (contains₁ : Contains all object₁ n₁ values₁) (smaller : c.staticSize ≤ n₁)
    (first : Rewrote c n updates values values₁)
    (second : Rewrote c n₁ later values₁ values₂) :
    Rewrote c n (updates ++ later) values values₂ := by
  intro i name q names
  obtain ⟨p₁, v, v₁, has₁, type, offset, made₁, last₁, source⟩ := first i name q names
  obtain ⟨p, v₁', v₂, has₂, type', offset', made₂, last₂, source₂⟩ := second i name q names
  have slot := laid.inside _ (List.mem_of_getElem? names.2)
  have positive := q.dataType.staticSize_pos
  simp only at slot
  rcases source₂ with ⟨at_, listed⟩ | ⟨behind, -⟩
  · obtain ⟨rfl, rfl⟩ := contains₁.has_unique listed has₁
    refine ⟨_, v, v₂, has₂, type, offset, ?_, last₁.trans last₂, source⟩
    rcases made₂ with rfl | made₂
    · exact made₁
    · exact Or.inr made₂
  · omega

/-- The extent that is read from an object is that of its values. -/
theorem Contains.extent_eq {all : List NativeCollection} (contains : Contains all object n values)
    {e : StoredValue} (mem : e ∈ values) {i : UInt16} {q : NativeProperty}
    (found : c.getProperty i = some q) (type : q.dataType = e.property.dataType)
    (offset : q.offset = e.property.offset) : (c.extent object).texts i = textLength e.value := by
  have reader : c.reader 0 object = some (.object 0 (sectionAt object 3 n) c) := by
    rw [NativeCollection.reader, contains.fromBytes]
    rfl
  have found' : (Reader.object 0 (sectionAt object 3 n) c).getProperty i.toUInt32 = some q := by
    show c.getProperty i.toUInt32.toUInt16 = some q
    rwa [UInt16.toUInt16_toUInt32]
  have stands := contains.stands e mem
  have slot := stands.slot
  simp only [NativeCollection.extent, reader, Option.bind_some]
  by_cases text : q.dataType = .string ∨ q.dataType = .json
  · have text' := text
    rw [type] at text'
    rw [Reader.readString_eq found' trivial text]
    have three : e.property.dataType.staticSize = 3 := by
      rcases text' with text | text <;> rw [text] <;> rfl
    have holds := stands.holds
    have fits := stands.fits
    rcases stands.text text' with value | ⟨text, value⟩
    · rw [value] at holds ⊢
      have zero : nullBytes e.property.dataType = leBytes 3 0 := by
        rcases text' with text | text <;> rw [text] <;> rfl
      have holds : At object (3 + e.property.offset) (leBytes 3 0) := zero ▸ holds
      rw [← offset] at holds
      have null := IsarDeserializer.getOffset_null (n := n) holds (by omega)
      have read : (sectionAt object 3 n).readDynamic q.offset = some none := by
        simp [IsarDeserializer.readDynamic, IsarDeserializer.getOffsetLength, null]
      rw [show (Reader.object 0 (sectionAt object 3 n) c).deserializer.readDynamic q.offset = _ from
        read]
      rfl
    · rw [value] at holds fits ⊢
      have read := HoldsDynamic.readDynamic holds fits.1 fits.2 slot stands.behind three
      rw [← offset] at read
      rw [show (Reader.object 0 (sectionAt object 3 n) c).deserializer.readDynamic q.offset = _ from
        read]
      rfl
  · have typed := stands.typed
    simp only [Reader.readString, found', if_neg text]
    cases value : e.value with
    | string _ =>
      rw [value] at typed
      rw [type] at text
      exact absurd typed text
    | _ => rfl

theorem Alive.measures (since : Since xxh3_64 before d passed old)
    (alive : Alive xxh3_64 before d passed old n values object) (mem : c ∈ d.collections)
    (named : c.name = old.name) (slots : c.HasSlots object) :
    Measures c (c.extent object) object.length (c.shown values) := by
  obtain ⟨s, reopened, -⟩ := alive.reopened_shown since mem named slots
  refine ⟨rfl, fun i name q p v names has => ?_⟩
  obtain ⟨p', v', has', type, offset⟩ := reopened.covers_names i name q names
  obtain ⟨at_, listed⟩ := has
  obtain ⟨rfl, rfl⟩ := reopened.contains.has_unique listed has'
  have there := (List.mem_filter.mp listed).1
  exact alive.contains.extent_eq there (getProperty_eq_some.mpr ⟨name, names⟩) type offset

/-- An object that lives has a key in every index. -/
theorem Alive.indexable (since : Since xxh3_64 before d passed old)
    (alive : Alive xxh3_64 before d passed old n values object) (mem : c ∈ d.collections)
    (named : c.name = old.name) (smaller : c.staticSize ≤ n) : c.Indexable object := by
  refine ⟨_, alive.contains.fromBytes, fun index listed => isSome_mapM fun q own => ?_⟩
  obtain ⟨⟨name, ownQ⟩, notObject, notJson, notList⟩ := since.laid'.keyed mem index listed q own
  have slot := (since.laid'.collection mem).inside _ ownQ
  have positive := q.dataType.staticSize_pos
  simp only at slot
  obtain ⟨p, v, ⟨at_, there⟩, type, offset, -⟩ := alive.hasFor mem named ownQ (by omega)
  have stands := alive.contains.stands _ there
  have legible := stands.holds.readable stands.typed stands.fits stands.slot stands.behind
  rw [type] at notObject notJson notList
  have read := legible.isSome_read notObject notJson notList
  simp only [IndexValue.read] at read ⊢
  rwa [type, offset]

/-- Updates that have room leave an object. -/
theorem Alive.exists_update (since : Since xxh3_64 before d passed old)
    (alive : Alive xxh3_64 before d passed old n values object) (mem : c ∈ d.collections)
    (named : c.name = old.name) (slots : c.HasSlots object) {x : Extent}
    (measures : Measures c x object.length (c.shown values)) (typed : c.TypedUpdates updates)
    (room : (updates.foldlM Extent.update x).isSome) :
    ∃ object', c.updateObject object updates = .ok object' := by
  obtain ⟨s, reopened, length⟩ := alive.reopened_shown since mem named slots
  rw [← length] at measures
  obtain ⟨s', done⟩ := reopened.contains.exists_foldlM_writeValue
    (fun c mem => since.laid.collection mem) (since.laid'.nodup_names mem) reopened.start
    reopened.size reopened.covers_names measures typed room
  refine ⟨s'.finish, ?_⟩
  rw [reopened.updateObject_eq, done]
  rfl

/-- `update` succeeds when the object can be updated, and the new one has a key in every index. -/
theorem NativeCollection.update_ok {txn : NativeTxn} {id : Int64} {object' : Bytes}
    (stored : c.objects txn id = some object)
    (updated : c.updateObject object updates = .ok object') (ready : c.Ready txn)
    (new : c.Indexable object') :
    ∃ txn', c.update xxh3_64 txn id updates = .ok (txn', true) ∧ c.Ready txn' ∧
      c.objects txn' id = some object' := by
  obtain ⟨db, hdb⟩ : ∃ db, c.db = some db := by
    cases hdb : c.db with
    | none =>
      unfold NativeCollection.objects at stored
      rw [hdb] at stored
      cases stored
    | some db => exact ⟨db, rfl⟩
  have cursor : c.cursorDb = .ok db := cursorDb_eq_ok.mpr hdb
  obtain ⟨txn', put, ready', stored'⟩ := put_ok xxh3_64 id hdb ready new
  rw [objects_of_db hdb] at stored
  refine ⟨txn', ?_, ready', stored'⟩
  simp [NativeCollection.update, cursor, stored, updated, put, bind, Except.bind, pure, Except.pure]

/-! ## Sequences of updates -/

theorem Alive.hasSlots (smaller : c.staticSize ≤ n)
    (alive : Alive xxh3_64 before d passed old n values object) : c.HasSlots object :=
  ⟨_, alive.contains.fromBytes, smaller⟩

/-- One update that has succeeded, and what it leaves. -/
theorem Alive.of_updateObject (since : Since xxh3_64 before d passed old) (mem : c ∈ d.collections)
    (named : c.name = old.name) {x : Extent} {object' : Bytes}
    (alive : Alive xxh3_64 before d passed old n values object) (slots : c.HasSlots object)
    (measures : Measures c x object.length (c.shown values))
    (updated : c.updateObject object updates = .ok object') :
    ∃ values' x', Alive xxh3_64 before d passed old c.staticSize values' object' ∧
      Rewrote c n updates values values' ∧ updates.foldlM Extent.update x = some x' ∧
      Measures c x' object'.length (c.shown values') := by
  obtain ⟨s, reopened, length⟩ := alive.reopened_shown since mem named slots
  obtain ⟨values', alive', rewrote, measured⟩ := alive.update since mem named reopened updated
  obtain ⟨x', eq, measures'⟩ := measured x (length.symm ▸ measures)
  exact ⟨values', x', alive', rewrote, eq, measures'⟩

/-- What a sequence of updates that has succeeded leaves. -/
theorem Alive.of_updateAll (since : Since xxh3_64 before d passed old) (mem : c ∈ d.collections)
    (named : c.name = old.name) {calls : List (List (UInt16 × Option IsarValue))} {x : Extent}
    {txn txn' : NativeTxn} {id : Int64} (alive : Alive xxh3_64 before d passed old n values object)
    (smaller : c.staticSize ≤ n) (measures : Measures c x object.length (c.shown values))
    (stored : c.objects txn id = some object)
    (done : c.updateAll xxh3_64 txn id calls = .ok txn') :
    ∃ object' n' values' x', c.objects txn' id = some object' ∧
      Alive xxh3_64 before d passed old n' values' object' ∧ c.staticSize ≤ n' ∧
      Rewrote c n calls.flatten values values' ∧
      calls.flatten.foldlM Extent.update x = some x' ∧ x'.length = object'.length := by
  induction calls generalizing object n values x txn with
  | nil =>
    cases pure_eq_ok.mp done
    exact ⟨object, n, values, x, stored, alive, smaller,
      alive.rewrote_nil since mem named smaller, rfl, measures.length⟩
  | cons updates calls ih =>
    rw [NativeCollection.updateAll, List.foldlM_cons] at done
    obtain ⟨txn₁, first, rest⟩ := bind_eq_ok.mp done
    obtain ⟨⟨_, found⟩, one, rfl⟩ := map_eq_ok.mp first
    obtain ⟨-, object₁, updated, stored₁⟩ := NativeCollection.objects_of_update stored one
    obtain ⟨values₁, x₁, alive₁, rewrote, eq, measures₁⟩ :=
      alive.of_updateObject since mem named (alive.hasSlots smaller) measures updated
    obtain ⟨object', n', values', x', stored', alive', smaller', rewrote', eq', length⟩ :=
      ih alive₁ le_rfl measures₁ stored₁ rest
    refine ⟨object', n', values', x', stored', alive', smaller',
      rewrote.trans (since.laid'.collection mem) alive₁.contains le_rfl rewrote', ?_, length⟩
    rw [List.flatten_cons, List.foldlM_append, eq]
    exact eq'

/-- A sequence of updates that has room succeeds. -/
theorem Alive.exists_updateAll (since : Since xxh3_64 before d passed old) (mem : c ∈ d.collections)
    (named : c.name = old.name) {calls : List (List (UInt16 × Option IsarValue))} {x : Extent}
    {txn : NativeTxn} {id : Int64} (alive : Alive xxh3_64 before d passed old n values object)
    (smaller : c.staticSize ≤ n) (measures : Measures c x object.length (c.shown values))
    (stored : c.objects txn id = some object) (ready : c.Ready txn)
    (typed : c.TypedUpdates calls.flatten)
    (room : (calls.flatten.foldlM Extent.update x).isSome) :
    ∃ txn', c.updateAll xxh3_64 txn id calls = .ok txn' := by
  induction calls generalizing object n values x txn with
  | nil => exact ⟨txn, rfl⟩
  | cons updates calls ih =>
    rw [List.flatten_cons] at typed room
    rw [List.foldlM_append, Option.bind_eq_bind, Option.isSome_bind, Option.any_eq_true] at room
    obtain ⟨x₁, eq, room⟩ := room
    have typed₁ : c.TypedUpdates updates := fun u mem => typed u (List.mem_append_left _ mem)
    have slots := alive.hasSlots smaller
    obtain ⟨object₁, updated⟩ := alive.exists_update since mem named slots measures typed₁
      (Option.isSome_iff_exists.mpr ⟨x₁, eq⟩)
    obtain ⟨values₁, x₁', alive₁, -, eq', measures₁⟩ :=
      alive.of_updateObject since mem named slots measures updated
    cases eq.symm.trans eq'
    obtain ⟨txn₁, first, ready₁, stored₁⟩ :=
      NativeCollection.update_ok stored updated ready (alive₁.indexable since mem named le_rfl)
    obtain ⟨txn', rest⟩ := ih alive₁ le_rfl measures₁ stored₁ ready₁
      (fun u mem => typed u (List.mem_append_right _ mem)) room
    refine ⟨txn', ?_⟩
    rw [NativeCollection.updateAll, List.foldlM_cons, first]
    exact rest

/-- The entries that a transaction of a database sees are ids. -/
theorem Since.holdsIds (since : Since xxh3_64 before d passed old) {txn : NativeTxn}
    {counters : String → Int64} {operations : List Operation}
    (began : c.run xxh3_64 (d.storage.beginTxn counters) operations = .ok txn) : txn.HoldsIds := by
  obtain ⟨events, run⟩ := since.start
  have stored : d.storage.HoldsIds := by
    have new : Database.new.storage.HoldsIds :=
      fun _ _ _ has => absurd has (MultiMap.has_empty _ _)
    exact (run.append since.history.run).invariant
      (fun _ _ _ holds one => Storage.HoldsIds.step holds one) new
  have start : (d.storage.beginTxn counters).HoldsIds := stored
  exact (NativeTxn.HoldsIds.preservedByWrites c).run start began

end

/-- Updates of an object that has the slots of all properties succeed one after the other exactly when
what they append has room behind it, where all objects of the collection have their keys. -/
theorem updates_sustained {xxh3_64 : Bytes → UInt64} {before after : Database}
    {events : List Event} {passed : List (Event × Database)} {old c : NativeCollection}
    {object : Bytes} (run : Run (Database.Step xxh3_64) Database.new events before)
    (memOld : old ∈ before.collections)
    (life : Life xxh3_64 NativeCollection.Reopens before old passed after object)
    (mem : c ∈ after.collections) (named : c.name = old.name) (slots : c.HasSlots object)
    (fewProperties : ∀ c ∈ before.collections ++ after.collections, c.properties.length < 2 ^ 16)
    (few : before.collections.length ≤ 2 ^ 16) (few' : after.collections.length ≤ 2 ^ 16)
    {counters : String → Int64} {operations : List Operation} {txn : NativeTxn}
    (began : c.run xxh3_64 (after.storage.beginTxn counters) operations = .ok txn) {id : Int64}
    (stored : c.objects txn id = some object)
    (keyed : ∀ id bytes, c.objects txn id = some bytes → c.Indexable bytes)
    {calls : List (List (UInt16 × Option IsarValue))} (typed : c.TypedUpdates calls.flatten) :
    Sustains xxh3_64 before after passed old c txn id calls object ↔
      c.HasRoom object calls.flatten := by
  obtain ⟨since, n, values, alive⟩ := life.alive (fun _ _ _ reopens => reopens) run memOld
    fun c mem => fewProperties c (List.mem_append_left _ mem)
  have measures := alive.measures since mem named slots
  have smaller := alive.staticSize_le slots
  constructor
  · rintro ⟨txn', -, -, -, done, -⟩
    obtain ⟨-, -, -, x', -, -, -, -, eq, -⟩ :=
      alive.of_updateAll since mem named smaller measures stored done
    exact Option.isSome_iff_exists.mpr ⟨x', eq⟩
  · intro room
    have ready : c.Ready txn := ⟨keyed, fun index _ => since.holdsIds began index.db⟩
    obtain ⟨txn', done⟩ := alive.exists_updateAll since mem named smaller measures stored ready typed
      room
    obtain ⟨object', n', values', x', stored', alive', smaller', rewrote, eq, length⟩ :=
      alive.of_updateAll since mem named smaller measures stored done
    refine ⟨txn', object', _, _, done, stored', alive.reader_eq id, alive'.reader_eq id, ?_, ?_⟩
    · exact alive.updatesOnly since alive' mem named smaller'
        (fun c mem => fewProperties c (List.mem_append_right _ mem)) few few' rewrote
        (fun _ _ => alive.dynamic_of_reopens since mem (Or.inl slots)) id
    · rw [← length]
      exact length_le_of_foldlM eq

/-! ## Labelled levels -/

/-- A level of an earlier version, with a name by an update: a longer note is appended, then the value
and the name are overwritten. -/
theorem updates_sustained_on_levels :
    ∃ txn, labelledLevels.run (fun _ => 0) (labelledLevelStorage.beginTxn fun _ => 1)
        [.save 1 labelledLevel] = .ok txn ∧
      Sustains (fun _ => 0) ⟨levelStorage, [levels]⟩ ⟨labelledLevelStorage, [labelledLevels]⟩
        [(.migrate noFaults [labelledLevelSchema], ⟨labelledLevelStorage, [labelledLevels]⟩)] levels
        labelledLevels txn 1
        [[(3, some (.string ['y', 'z']))], [(1, some (.integer 9)), (2, none)]] labelledLevel := by
  have slots : labelledLevels.HasSlots labelledLevel :=
    ⟨⟨[7, 7, 0, 0, 0, 0, 0, 1, 0, 0, 120], 7⟩, rfl, le_rfl⟩
  have typed : labelledLevels.TypedUpdates (List.flatten
      [[(3, some (.string ['y', 'z']))], [(1, some (.integer 9)), (2, none)]]) := by
    intro u mem
    simp only [List.flatten_cons, List.flatten_nil, List.cons_append, List.nil_append,
      List.mem_cons, List.not_mem_nil, or_false] at mem
    rcases mem with rfl | rfl | rfl <;> exact ⟨_, _, rfl, rfl⟩
  have saved : ∃ txn, labelledLevels.run (fun _ => 0) (labelledLevelStorage.beginTxn fun _ => 1)
      [.save 1 labelledLevel] = .ok txn ∧ labelledLevels.objects txn 1 = some labelledLevel ∧
      ∀ id bytes, labelledLevels.objects txn id = some bytes → labelledLevels.Indexable bytes :=
    ⟨_, rfl, rfl, by decide +kernel⟩
  obtain ⟨txn, began, stored, keyed⟩ := saved
  refine ⟨txn, began, (updates_sustained levels_run (List.mem_singleton_self _)
    life_of_labelledLevel (List.mem_singleton_self _) rfl slots ?_ (show 1 ≤ 2 ^ 16 by decide)
    (show 1 ≤ 2 ^ 16 by decide) began stored keyed typed).mpr rfl⟩
  decide

end IsarPlus.Native
