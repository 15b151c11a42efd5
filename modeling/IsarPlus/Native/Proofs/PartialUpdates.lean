import IsarPlus.Native.Proofs.SchemaEvolution
import IsarPlus.Native.Proofs.WrittenObjects
import IsarPlus.Native.Updates

/-!
# Updates of objects of earlier versions

An object keeps a value for every property that its collection keeps, through migrations and through
the updates that find all slots of the collection in its static section. Other updates open the
object with slots over its dynamic bytes or behind its end.
-/

namespace IsarPlus.Native
open ByteBuffer OrderedStore Scalar
open Sqlite (Written)

/-! ## Whole values -/

section
variable {all : List NativeCollection}

theorem whole_of_updated {p : NativeProperty} {t : DataType} {value : Option IsarValue}
    {v : Written} (h : updatedValue t value = some v) : Whole all p v := by
  cases value with
  | none =>
    have eq : v = .null := by
      unfold updatedValue at h
      exact (Option.some.inj h).symm
    rw [eq]
    trivial
  | some value =>
    cases value <;> cases t <;> cases h <;> trivial

end

/-! ## Objects that live -/

theorem exists_property_of_stores {schemas : List IsarSchema} {d : Database}
    (opens : d.Opens schemas) {c : NativeCollection} (mem : c ∈ d.collections)
    {ps : PropertySchema} {name : String} (stores : d.storage.Stores c.name ps)
    (named : ps.name = some name) : ∃ p, (name, p) ∈ c.properties := by
  obtain ⟨schema, -, e, stored, -, made⟩ := opens.exists_made mem
  obtain ⟨e', stored', memPs⟩ := stores
  cases stored.symm.trans stored'
  obtain ⟨i, there⟩ := List.mem_iff_getElem?.mp memPs
  obtain ⟨unsorted, native, -⟩ := made.native
  obtain ⟨p, native⟩ := Option.isSome_iff_exists.mp
    (isSome_nativeProperty native there (by rw [named]; rfl))
  rw [Nat.zero_add] at native
  exact ⟨p, made.mem_properties.mpr ⟨i, ps, there, named, native⟩⟩

section
variable {xxh3_64 : Bytes → UInt64} {before d after : Database}
  {passed : List (Event × Database)} {old c : NativeCollection} {n : Nat}
  {values : List StoredValue} {object object' : Bytes}
  {updates : List (UInt16 × Option IsarValue)}

/-- What is kept now was kept before. -/
theorem Kept.before_last {v : Event × Database} {collection property : String}
    (kept : Kept before (passed ++ [v]) collection property) :
    Kept before passed collection property := by
  obtain ⟨p, named, stored, always⟩ := kept
  exact ⟨p, named, stored, fun v mem => always v (List.mem_append_left _ mem)⟩

/-- The history of an object up to now. -/
structure Since (xxh3_64 : Bytes → UInt64) (before d : Database)
    (passed : List (Event × Database)) (old : NativeCollection) : Prop where
  start : ∃ events, Run (Database.Step xxh3_64) Database.new events before
  mem : old ∈ before.collections
  history : Trace (Database.Step xxh3_64) before passed d
  stays : ∀ v ∈ passed, (v.2.storage.info.find old.name).isSome

namespace Since

theorem laid (since : Since xxh3_64 before d passed old) : before.Laid := by
  obtain ⟨events, run⟩ := since.start
  exact Database.Laid.run run

theorem laid' (since : Since xxh3_64 before d passed old) : d.Laid :=
  since.history.run.invariant (fun _ _ _ laid one => laid.step one) since.laid

theorem opens (since : Since xxh3_64 before d passed old) : ∃ schemas, before.Opens schemas := by
  obtain ⟨events, run⟩ := since.start
  exact ⟨_, @opens_of_run _ _ _ events [] Database.Laid.new (fun some_ => absurd rfl some_) run
    (List.ne_nil_of_mem since.mem)⟩

theorem opens' (since : Since xxh3_64 before d passed old) (mem : c ∈ d.collections) :
    ∃ schemas, d.Opens schemas := by
  obtain ⟨events, run⟩ := since.start
  exact ⟨_, @opens_of_run _ _ _ _ [] Database.Laid.new (fun some_ => absurd rfl some_)
    (run.append since.history.run) (List.ne_nil_of_mem mem)⟩

theorem succeeds (since : Since xxh3_64 before d passed old) (mem : c ∈ d.collections)
    (name : c.name = old.name) : Succeeds before d passed old c :=
  ⟨since.mem, mem, name, since.stays⟩

/-- The history of what is written now. -/
theorem now (since : Since xxh3_64 before d passed old) (mem : c ∈ d.collections) :
    Since xxh3_64 d d [] c := by
  obtain ⟨events, run⟩ := since.start
  exact ⟨⟨_, run.append since.history.run⟩, mem, .nil, by simp⟩

theorem next {d' : Database} {event : Event} (since : Since xxh3_64 before d passed old)
    (one : Database.Step xxh3_64 d event d') (stays : (d'.storage.info.find old.name).isSome) :
    Since xxh3_64 before d' (passed ++ [(event, d')]) old := by
  refine ⟨since.start, since.mem, since.history.snoc one, fun v mem => ?_⟩
  rcases List.mem_append.mp mem with mem | mem
  · exact since.stays v mem
  · cases List.mem_singleton.mp mem
    exact stays

/-- A property that was kept has its slot in the objects of the earlier version. -/
theorem slot_of_kept (since : Since xxh3_64 before d passed old) (mem : c ∈ d.collections)
    (named : c.name = old.name) {name : String} {p : NativeProperty}
    (own : (name, p) ∈ old.properties) (kept : Kept before passed old.name name) :
    ∃ q, (name, q) ∈ c.properties ∧ q.dataType = p.dataType ∧ q.offset = p.offset := by
  obtain ⟨schemas, opens⟩ := since.opens
  obtain ⟨schemas', opens'⟩ := since.opens' mem
  obtain ⟨ps, q, -, native, native', own', -⟩ :=
    place_of_kept since.history since.laid opens opens' (since.succeeds mem named) own kept
  obtain ⟨type, -⟩ := nativeProperty_eq native
  obtain ⟨type', offset⟩ := nativeProperty_eq native'
  exact ⟨q, own', type'.trans type.symm, offset⟩

theorem exists_property (since : Since xxh3_64 before d passed old) {name : String}
    (kept : Kept before passed old.name name) : ∃ p, (name, p) ∈ old.properties := by
  obtain ⟨schemas, opens⟩ := since.opens
  obtain ⟨ps, named, stores, -⟩ := kept
  exact exists_property_of_stores opens since.mem stores named

/-- A property with its slot in the objects of an earlier version was kept. -/
theorem exists_kept (since : Since xxh3_64 before d passed old) (mem : c ∈ d.collections)
    (named : c.name = old.name) {name : String} {q : NativeProperty} (own : (name, q) ∈ c.properties)
    (inside : q.offset < old.staticSize) : Kept before passed old.name name ∧
      ∃ p, (name, p) ∈ old.properties ∧ q.dataType = p.dataType ∧ q.offset = p.offset := by
  obtain ⟨schemas, opens⟩ := since.opens
  obtain ⟨schemas', opens'⟩ := since.opens' mem
  have succeeds := since.succeeds mem named
  have kept : Kept before passed old.name name := by
    by_contra lost
    rw [← named] at lost
    have behind := behind_of_not_kept since.history since.laid opens opens' succeeds own lost
    omega
  refine ⟨kept, ?_⟩
  obtain ⟨p, ownOld⟩ := since.exists_property kept
  obtain ⟨q', own', type, offset⟩ := since.slot_of_kept mem named ownOld kept
  obtain rfl : q' = q := by
    have same := List.inj_on_of_nodup_map (since.laid'.nodup_names mem) own' own rfl
    exact congrArg Prod.snd same
  exact ⟨p, ownOld, type, offset⟩

end Since

/-- Where a value comes from: the collection has written it to one of its properties, or an update
has written it since, and it is flat. -/
def Origin (old : NativeCollection) (name : String) (p : NativeProperty) (v : Written) : Prop :=
  (name, p) ∈ old.properties ∨ FlatValue v ∧ p.embeddedCollectionIndex = none

/-- A property of a collection has a value. -/
def HasFor (old : NativeCollection) (values : List StoredValue) (name : String) (q : NativeProperty) :
    Prop :=
  ∃ p v, Has values name p v ∧ q.dataType = p.dataType ∧ q.offset = p.offset ∧ Origin old name p v

/-- An object that has a whole value for every property that was kept since it was written, and a
value for what was kept since it has got the static section that it has. -/
structure Alive (xxh3_64 : Bytes → UInt64) (before d : Database) (passed : List (Event × Database))
    (old : NativeCollection) (n : Nat) (values : List StoredValue) (object : Bytes) : Prop where
  contains : Contains before.collections object n values
  kept : ∀ name p, (name, p) ∈ old.properties → Kept before passed old.name name →
    ∃ v, Has values name p v ∧ Whole before.collections p v
  shaped : ∃ then_ later shape, Since xxh3_64 then_ d later shape ∧ shape.name = old.name ∧
    n ≤ shape.staticSize ∧ ∀ name q, (name, q) ∈ shape.properties →
      Kept then_ later old.name name → HasFor old values name q

theorem Alive.next (alive : Alive xxh3_64 before d passed old n values object) {d' : Database}
    {event : Event} (one : Database.Step xxh3_64 d event d')
    (stays : (d'.storage.info.find old.name).isSome) :
    Alive xxh3_64 before d' (passed ++ [(event, d')]) old n values object := by
  obtain ⟨then_, later, shape, since, named, size, has⟩ := alive.shaped
  refine ⟨alive.contains, fun name p mem kept => alive.kept name p mem kept.before_last, then_,
    later ++ [(event, d')], shape, since.next one (named ▸ stays), named, size,
    fun name q own kept => has name q own kept.before_last⟩

/-- What has its slot in the object has a value. -/
theorem Alive.hasFor (alive : Alive xxh3_64 before d passed old n values object)
    (mem : c ∈ d.collections) (named : c.name = old.name) {name : String} {q : NativeProperty}
    (own : (name, q) ∈ c.properties) (inside : q.offset < n) : HasFor old values name q := by
  obtain ⟨then_, later, shape, since, named', size, has⟩ := alive.shaped
  obtain ⟨kept, p, ownP, type, offset⟩ :=
    since.exists_kept mem (named.trans named'.symm) own (by omega)
  obtain ⟨p', v, value, type', offset', origin⟩ := has name p ownP (named' ▸ kept)
  exact ⟨p', v, value, type.trans type', offset.trans offset', origin⟩

/-- The values that have their slots in the static section of a collection. -/
def NativeCollection.shown (c : NativeCollection) (values : List StoredValue) : List StoredValue :=
  values.filter fun e =>
    decide (e.property.offset + e.property.dataType.staticSize ≤ c.staticSize)

/-- The values of an object with `n` bytes in the static section that is opened with those of a
collection: what is behind them is zero. -/
def NativeCollection.extended (c : NativeCollection) (n : Nat) (values : List StoredValue) :
    List StoredValue :=
  (values.filter fun e => decide (∀ q ∈ c.properties, q.1 = e.name → q.2.offset < n)).map
      (fun e => { e with at_ := 3 + c.staticSize }) ++
    (c.properties.filter fun q => decide (n ≤ q.2.offset)).map fun q =>
      ⟨q.1, { q.2 with embeddedCollectionIndex := none }, zeroValue q.2.dataType, 3 + c.staticSize⟩

/-- The serializer on which an update of an object works, and the values that it has for the
properties of the collection. -/
structure Reopened (before : Database) (passed : List (Event × Database))
    (old c : NativeCollection) (n : Nat) (values : List StoredValue) (object : Bytes)
    (s : IsarSerializer) (shown : List StoredValue) : Prop where
  opened : IsarSerializer.new object 0 c.staticSize = some s
  start : s.offset = 3
  size : s.staticSize = c.staticSize
  contains : Contains before.collections s.buffer c.staticSize shown
  covers : ∀ name q, (name, q) ∈ c.properties → ∃ p v, Has shown name p v ∧
    q.dataType = p.dataType ∧ q.offset = p.offset ∧ Origin old name p v ∧
    (Has values name p v ∨ n ≤ q.offset ∧ v = zeroValue q.dataType)
  still : ∀ name p v, (name, p) ∈ old.properties → Kept before passed old.name name →
    Has values name p v → Has shown name p v

theorem Alive.staticSize_le (alive : Alive xxh3_64 before d passed old n values object)
    (slots : c.HasSlots object) : c.staticSize ≤ n := by
  obtain ⟨d', parsed, le⟩ := slots
  cases alive.contains.fromBytes.symm.trans parsed
  exact le

/-- An object that has all slots of the collection has its values, when it is opened again. -/
theorem Alive.reopened_shown (since : Since xxh3_64 before d passed old)
    (alive : Alive xxh3_64 before d passed old n values object) (mem : c ∈ d.collections)
    (named : c.name = old.name) (slots : c.HasSlots object) :
    ∃ s, Reopened before passed old c n values object s (c.shown values) ∧
      s.buffer.length = object.length := by
  have laid (c : NativeCollection) (mem : c ∈ before.collections) := since.laid.collection mem
  obtain ⟨s, opened, start, size, length, contains⟩ :=
    alive.contains.reopen laid (alive.staticSize_le slots)
  have smaller := alive.staticSize_le slots
  have shown {name : String} {q : NativeProperty} (own : (name, q) ∈ c.properties)
      {p : NativeProperty} {v : Written} (has : Has values name p v) (type : q.dataType = p.dataType)
      (offset : q.offset = p.offset) : Has (c.shown values) name p v := by
    have inside := (since.laid'.collection mem).inside _ own
    simp only [type, offset] at inside
    obtain ⟨at_, there⟩ := has
    exact ⟨at_, List.mem_filter.mpr ⟨there, decide_eq_true inside⟩⟩
  refine ⟨s, ⟨opened, start, size, contains, fun name q own => ?_, fun name p v own kept has => ?_⟩,
    length⟩
  · have inside := (since.laid'.collection mem).inside _ own
    have positive := q.dataType.staticSize_pos
    simp only at inside
    obtain ⟨p, v, has, type, offset, origin⟩ := alive.hasFor mem named own (by omega)
    exact ⟨p, v, shown own has type offset, type, offset, origin, Or.inl has⟩
  · obtain ⟨q, own', type, offset⟩ := since.slot_of_kept mem named own kept
    exact shown own' has type offset

/-- The values of an extended object stand apart. -/
theorem Contains.extended {all : List NativeCollection} {b b' : Bytes}
    (contains : Contains all b n values) (laid : c.Laid) (names : (c.properties.map Prod.fst).Nodup)
    (le : n ≤ c.staticSize) (small : Fits24 c.staticSize) (length : b'.length = 3 + c.staticSize)
    (header : At b' 0 (leBytes 3 c.staticSize))
    (zeros : At b' (3 + n) (List.replicate (c.staticSize - n) 0))
    (moved : ∀ e ∈ values, StoredValue.Stands all b' c.staticSize { e with at_ := 3 + c.staticSize }) :
    Contains all b' c.staticSize (c.extended n values) := by
  have ends (e : StoredValue) (mem : e ∈ values) :
      StoredValue.end_ all { e with at_ := 3 + c.staticSize } = 3 + c.staticSize := by
    have inside := (moved e mem).inside
    have start : 3 + c.staticSize ≤ StoredValue.end_ all { e with at_ := 3 + c.staticSize } :=
      Nat.le_add_right _ _
    omega
  refine ⟨header, small, length.ge, fun e mem => ?_, List.pairwise_append.mpr ⟨?_, ?_, ?_⟩⟩
  · rcases List.mem_append.mp mem with mem | mem
    · obtain ⟨e, there, rfl⟩ := List.mem_map.mp mem
      exact moved e (List.mem_filter.mp there).1
    · obtain ⟨⟨name, q⟩, there, rfl⟩ := List.mem_map.mp mem
      obtain ⟨own, behind⟩ := List.mem_filter.mp there
      have behind := of_decide_eq_true behind
      have slot := laid.inside _ own
      simp only at behind slot
      refine ⟨slot, typed_zeroValue, fitsAt_zeroValue _ _ _, holds_zeroValue ?_, le_rfl, ?_⟩
      · have zero := IsarSerializer.at_replicate_of_at zeros
          (show q.offset - n + q.dataType.staticSize ≤ c.staticSize - n by omega)
        rwa [show 3 + n + (q.offset - n) = 3 + q.offset by omega] at zero
      · rw [StoredValue.end_, dynamicSize_zeroValue, length]
        exact le_rfl
  · refine List.pairwise_map.mpr ((contains.apart.filter _).imp_of_mem fun memA memB apart => ?_)
    refine ⟨apart.name, apart.slots, Or.inl ?_⟩
    exact (ends _ (List.mem_filter.mp memA).1).le
  · have apart := List.Pairwise.and (List.pairwise_map.mp names) laid.apart
    refine List.pairwise_map.mpr ((apart.filter _).imp fun {q q'} apart => ?_)
    refine ⟨apart.1, apart.2, Or.inl ?_⟩
    rw [StoredValue.end_, dynamicSize_zeroValue]
    exact le_rfl
  · intro e memE e' memE'
    obtain ⟨e, there, rfl⟩ := List.mem_map.mp memE
    obtain ⟨⟨name, q⟩, there', rfl⟩ := List.mem_map.mp memE'
    obtain ⟨mem, stays⟩ := List.mem_filter.mp there
    obtain ⟨own, behind⟩ := List.mem_filter.mp there'
    have behind := of_decide_eq_true behind
    have slot := (contains.stands e mem).slot
    refine ⟨fun same => ?_, Or.inl (slot.trans behind), Or.inl (ends e mem).le⟩
    exact absurd (of_decide_eq_true stays _ own same.symm) (not_lt.mpr behind)

/-- An object without dynamic bytes has its values and zeros behind them, when it is opened with
further slots. -/
theorem Alive.reopened_extended (since : Since xxh3_64 before d passed old)
    (alive : Alive xxh3_64 before d passed old n values object) (mem : c ∈ d.collections)
    (named : c.name = old.name) (flush : object.length = 3 + n) (le : n ≤ c.staticSize)
    (small : c.staticSize < 2 ^ 24) :
    ∃ s, Reopened before passed old c n values object s (c.extended n values) := by
  have laid (c : NativeCollection) (mem : c ∈ before.collections) := since.laid.collection mem
  have names := since.laid'.nodup_names mem
  obtain ⟨s, opened, start, size, length, header, zeros, moved⟩ :=
    alive.contains.extend laid flush le small
  have contains := alive.contains.extended (since.laid'.collection mem) names le small length header
    zeros moved
  -- A name with its slot in the object is none of the new ones.
  have stays {name : String} {q : NativeProperty} (own : (name, q) ∈ c.properties)
      (inside : q.offset < n) {p : NativeProperty} {v : Written} (has : Has values name p v) :
      Has (c.extended n values) name p v := by
    obtain ⟨at_, there⟩ := has
    refine ⟨3 + c.staticSize, List.mem_append_left _ (List.mem_map.mpr ⟨_, List.mem_filter.mpr
      ⟨there, decide_eq_true fun q' own' same => ?_⟩, rfl⟩)⟩
    cases List.inj_on_of_nodup_map names own' own same
    exact inside
  refine ⟨s, opened, start, size, contains, fun name q own => ?_, fun name p v own kept has => ?_⟩
  · by_cases inside : q.offset < n
    · obtain ⟨p, v, has, type, offset, origin⟩ := alive.hasFor mem named own inside
      exact ⟨p, v, stays own inside has, type, offset, origin, Or.inl has⟩
    · rw [not_lt] at inside
      refine ⟨{ q with embeddedCollectionIndex := none }, zeroValue q.dataType,
        ⟨3 + c.staticSize, List.mem_append_right _ (List.mem_map.mpr ⟨(name, q), List.mem_filter.mpr
          ⟨own, decide_eq_true inside⟩, rfl⟩)⟩, rfl, rfl, Or.inr ⟨?_, rfl⟩, Or.inr ⟨inside, rfl⟩⟩
      cases q.dataType <;> exact trivial
  · obtain ⟨q, own', type, offset⟩ := since.slot_of_kept mem named own kept
    obtain ⟨at_, there⟩ := id has
    have slot := (alive.contains.stands _ there).slot
    have positive := p.dataType.staticSize_pos
    simp only at slot
    exact stays own' (by omega) has

/-- An update works on an object that can be opened with the slots of the collection. -/
theorem Alive.reopened (since : Since xxh3_64 before d passed old)
    (alive : Alive xxh3_64 before d passed old n values object) (mem : c ∈ d.collections)
    (named : c.name = old.name) (reopens : c.Reopens object updates)
    (updated : c.updateObject object updates = .ok object') :
    ∃ s shown, Reopened before passed old c n values object s shown := by
  rcases reopens with slots | ⟨d', parsed, flush, -⟩
  · obtain ⟨s, reopened, -⟩ := alive.reopened_shown since mem named slots
    exact ⟨s, _, reopened⟩
  · cases alive.contains.fromBytes.symm.trans parsed
    by_cases le : n ≤ c.staticSize
    · have small : c.staticSize < 2 ^ 24 := by
        by_contra large
        unfold NativeCollection.updateObject at updated
        rw [IsarSerializer.new_eq_none large] at updated
        cases updated
      obtain ⟨s, reopened⟩ := alive.reopened_extended since mem named flush le small
      exact ⟨s, _, reopened⟩
    · obtain ⟨s, reopened, -⟩ := alive.reopened_shown since mem named
        ⟨_, alive.contains.fromBytes, (not_le.mp le).le⟩
      exact ⟨s, _, reopened⟩

theorem Has.of_shown {name : String} {p : NativeProperty} {v : Written}
    (has : Has (c.shown values) name p v) : Has values name p v := by
  obtain ⟨at_, mem⟩ := has
  exact ⟨at_, (List.mem_filter.mp mem).1⟩

theorem Measures.shown {x : Extent} {length : Nat} (measures : Measures c x length values) :
    Measures c x length (c.shown values) :=
  ⟨measures.length, fun i name q p v names has => measures.texts i name q p v names has.of_shown⟩

theorem Reopened.updateObject_eq {s : IsarSerializer} {shown : List StoredValue}
    (reopened : Reopened before passed old c n values object s shown) :
    c.updateObject object updates =
      (updates.foldlM (fun object u => c.writeValue object u.1 u.2) s).map IsarSerializer.finish := by
  unfold NativeCollection.updateObject
  rw [reopened.opened]
  rfl

theorem Reopened.covers_names {s : IsarSerializer} {shown : List StoredValue}
    (reopened : Reopened before passed old c n values object s shown) : Covers c shown := by
  intro i name q names
  obtain ⟨p, v, has, type, offset, -⟩ :=
    reopened.covers name q (List.mem_of_getElem? names.2)
  exact ⟨p, v, has, type, offset⟩

/-- What updates leave of the values of a collection. A property with its slot behind the object had
the zero value. -/
def Rewrote (c : NativeCollection) (n : Nat) (updates : List (UInt16 × Option IsarValue))
    (values values' : List StoredValue) : Prop :=
  ∀ i name q, Names c i name q → ∃ p v v', Has values' name p v' ∧ q.dataType = p.dataType ∧
    q.offset = p.offset ∧ (v' = v ∨ ∃ t value, updatedValue t value = some v') ∧
    Updated updates i q.dataType v v' ∧
    (Has values name p v ∨ n ≤ q.offset ∧ v = zeroValue q.dataType)

theorem flatValue_of_updated {t : DataType} {value : Option IsarValue} {v : Written}
    (h : updatedValue t value = some v) : FlatValue v := by
  cases value with
  | none =>
    obtain rfl : Written.null = v := by
      unfold updatedValue at h
      exact Option.some.inj h
    trivial
  | some value => cases value <;> cases t <;> cases h <;> trivial

theorem Origin.rewritten {name : String} {p : NativeProperty} {v v' : Written}
    (origin : Origin old name p v) (made : v' = v ∨ ∃ t value, updatedValue t value = some v') :
    Origin old name p v' := by
  rcases origin with own | ⟨flat, target⟩
  · exact Or.inl own
  · rcases made with rfl | ⟨t, value, new⟩
    · exact Or.inr ⟨flat, target⟩
    · exact Or.inr ⟨flatValue_of_updated new, target⟩

/-- An update writes the properties that it names. -/
theorem Alive.update (since : Since xxh3_64 before d passed old)
    (alive : Alive xxh3_64 before d passed old n values object) (mem : c ∈ d.collections)
    (named : c.name = old.name) {s : IsarSerializer} {shown : List StoredValue}
    (reopened : Reopened before passed old c n values object s shown)
    (updated : c.updateObject object updates = .ok object') :
    ∃ values', Alive xxh3_64 before d passed old c.staticSize values' object' ∧
      Rewrote c n updates values values' ∧
      ∀ x, Measures c x s.buffer.length shown →
        ∃ x', updates.foldlM Extent.update x = some x' ∧
          Measures c x' object'.length (c.shown values') := by
  have laid (c : NativeCollection) (mem : c ∈ before.collections) := since.laid.collection mem
  rw [reopened.updateObject_eq] at updated
  obtain ⟨s', done, rfl⟩ := map_eq_ok.mp updated
  obtain ⟨values', contains', rewritten, measured⟩ :=
    reopened.contains.foldlM_writeValue laid (since.laid'.nodup_names mem) reopened.start
      reopened.size reopened.covers_names done
  refine ⟨values', ⟨contains', fun name p own kept => ?_, d, [], c, since.now mem, named, le_rfl,
    fun name q own _ => ?_⟩, fun i name q names => ?_, fun x measures => ?_⟩
  · obtain ⟨v, has, whole⟩ := alive.kept name p own kept
    obtain ⟨v', has', made, -⟩ := rewritten name p v (reopened.still name p v own kept has)
    refine ⟨v', has', ?_⟩
    rcases made with rfl | ⟨t, value, made⟩
    · exact whole
    · exact whole_of_updated made
  · obtain ⟨p, v, has, type, offset, origin, -⟩ := reopened.covers name q own
    obtain ⟨v', has', made, -⟩ := rewritten name p v has
    exact ⟨p, v', has', type, offset, origin.rewritten made⟩
  · obtain ⟨p, v, has, type, offset, -, source⟩ :=
      reopened.covers name q (List.mem_of_getElem? names.2)
    obtain ⟨v', has', made, last⟩ := rewritten name p v has
    exact ⟨p, v, v', has', type, offset, made, last i q names, source⟩
  · obtain ⟨x', eq, measures'⟩ := measured x measures
    exact ⟨x', eq, measures'.shown⟩

/-- What lives has whole values. -/
theorem Life.alive {condition : NativeCollection → Bytes → List (UInt16 × Option IsarValue) → Prop}
    (reopens : ∀ c object updates, condition c object updates → c.Reopens object updates)
    {events : List Event} (run : Run (Database.Step xxh3_64) Database.new events before)
    (memOld : old ∈ before.collections)
    (few : ∀ c ∈ before.collections, c.properties.length < 2 ^ 16)
    (life : Life xxh3_64 condition before old passed d object) :
    Since xxh3_64 before d passed old ∧
      ∃ n values, Alive xxh3_64 before d passed old n values object := by
  induction life with
  | written typed nodup written =>
    have laid := Database.Laid.run run
    have fits := NativeCollection.objectFits_of_writeObject (fun c mem => laid.collection mem)
      memOld typed written
    obtain ⟨insert, again, -, encodes⟩ := NativeCollection.writeObject_spec _
      (fun c mem => laid.collection mem) memOld typed nodup fits
    rw [written] at again
    cases again
    obtain ⟨values, contains, whole, covers⟩ := encodes.contains (laid.collection memOld) few memOld
      (laid.nodup_names memOld) nodup typed fits
    have since : Since xxh3_64 before before [] old := ⟨⟨events, run⟩, memOld, .nil, by simp⟩
    refine ⟨since, _, values, contains, fun name p own kept => ?_, before, [], old, since, rfl,
      le_rfl, fun name q own _ => ?_⟩
    · obtain ⟨v, at_, there⟩ := covers name p own
      exact ⟨v, ⟨at_, there⟩, whole _ there⟩
    · obtain ⟨v, at_, there⟩ := covers name q own
      exact ⟨q, v, ⟨at_, there⟩, rfl, rfl, Or.inl own⟩
  | step life one stays ih =>
    obtain ⟨since, n, values, alive⟩ := ih
    exact ⟨since.next one stays, n, values, alive.next one stays⟩
  | update life mem name met updated ih =>
    obtain ⟨since, n, values, alive⟩ := ih
    obtain ⟨s, shown, reopened⟩ := alive.reopened since mem name (reopens _ _ _ met) updated
    obtain ⟨values', alive', -⟩ := alive.update since mem name reopened updated
    exact ⟨since, _, values', alive'⟩

/-! ## What updates leave -/

/-- A value of an object reads back with every later version of the collection. -/
theorem Alive.stillReads (since : Since xxh3_64 before after passed old)
    (alive : Alive xxh3_64 before after passed old n values object) (mem : c ∈ after.collections)
    (named : c.name = old.name)
    (fewProperties : ∀ c ∈ after.collections, c.properties.length < 2 ^ 16)
    (few : before.collections.length ≤ 2 ^ 16) (few' : after.collections.length ≤ 2 ^ 16)
    {name : String} {p : NativeProperty} {v : Written} (own : (name, p) ∈ old.properties)
    (kept : Kept before passed old.name name) (has : Has values name p v) (id : Int64)
    {index : UInt32} (knows : c.Knows index name) :
    StillReads (Kept before passed) before.collections after.collections
      (.object id (sectionAt object 3 n) c) index p v := by
  obtain ⟨schemas, opens⟩ := since.opens
  obtain ⟨schemas', opens'⟩ := since.opens' mem
  have follows := follows_of_trace since.history since.laid opens opens' fewProperties few few'
  obtain ⟨q, ownNew, matches_⟩ := matches_of_kept since.history since.laid opens opens' few few'
    (since.succeeds mem named) own kept
  obtain ⟨q', -, there⟩ := NativeCollection.knows_iff.mp knows
  have same := List.inj_on_of_nodup_map (since.laid'.nodup_names mem) (List.mem_of_getElem? there)
    ownNew rfl
  cases same
  obtain ⟨at_, listed⟩ := has
  have stands := alive.contains.stands _ listed
  have found : (Reader.object id (sectionAt object 3 n) c).getProperty index = some q :=
    getProperty_of_knows (fewProperties c mem) there knows.1
  exact stands.holds.stillReads (fun c mem => since.laid.collection mem)
    (fun c mem => since.laid'.collection mem) follows found rfl trivial stands.slot stands.behind
    matches_ stands.typed stands.fits

/-- What was not kept since the object was written reads back, if it has its slot in the object. -/
theorem Alive.readsBack (since : Since xxh3_64 before after passed old)
    (alive : Alive xxh3_64 before after passed old n values object) (mem : c ∈ after.collections)
    (named : c.name = old.name) {name : String} {p q : NativeProperty} {v : Written}
    (own : (name, q) ∈ c.properties) (lost : ¬ Kept before passed old.name name)
    (has : Has values name p v) (inside : q.offset < n) {id : Int64} {index : UInt32}
    (found : (Reader.object id (sectionAt object 3 n) c).getProperty index = some q) :
    (Reader.object id (sectionAt object 3 n) c).ReadsBack after.collections index q.dataType v := by
  obtain ⟨p', v', ⟨at_, listed⟩, type, offset, origin⟩ := alive.hasFor mem named own inside
  obtain ⟨rfl, rfl⟩ := alive.contains.has_unique listed has
  rcases origin with written | ⟨flat, target⟩
  · have slot := (since.laid.collection since.mem).inside _ written
    have positive := p.dataType.staticSize_pos
    simp only at slot
    exact absurd (since.exists_kept mem named own (by omega)).1 lost
  · have stands := alive.contains.stands _ listed
    have matches_ : Matches before.collections after.collections (fun _ _ => True) p q := by
      refine ⟨type, offset, fun old embedded => ?_⟩
      unfold NativeProperty.embedded at embedded
      rw [target] at embedded
      cases embedded
    have reads := @stillReads_flat _ _ (fun _ _ => True) _ _
      (fun c mem => since.laid'.collection mem) _ _ _ _ _ _ _ found rfl trivial stands.slot
      stands.behind matches_ _ flat stands.typed stands.fits stands.holds
    rw [type]
    cases v <;> first
      | exact reads
      | cases flat

theorem names_of_knows (few : c.properties.length < 2 ^ 16) {index : UInt32} {name : String}
    (knows : c.Knows index name) : ∃ q, Names c index.toUInt16 name q := by
  obtain ⟨q, found, there⟩ := NativeCollection.knows_iff.mp knows
  have lt := (List.getElem?_eq_some_iff.mp there).1
  have positive : index.toNat ≠ 0 := fun eq => knows.1 (UInt32.toNat_inj.mp eq)
  have width : index.toUInt16.toNat = index.toNat := by
    rw [UInt32.toNat_toUInt16]
    exact Nat.mod_eq_of_lt (by omega)
  refine ⟨q, fun zero => positive ?_, by rwa [width]⟩
  rw [← width, zero]
  rfl

/-- What is absent reads as null, but for a byte. -/
theorem Reader.Absent.readsNull {all : List NativeCollection} {r : Reader} {index : UInt32}
    (absent : r.Absent all index) {t : DataType} (dynamic : zeroValue t = .null) :
    r.ReadsNull all index t := by
  cases t <;> first
    | cases dynamic; done
    | exact ⟨absent.isNull, absent.list⟩
    | exact ⟨absent.isNull, absent.string⟩
    | exact ⟨absent.isNull, absent.object⟩
    | exact ⟨absent.isNull, absent.blob, absent.list⟩

/-- The readers of an object and of what updates have left of it. -/
theorem Alive.updatesOnly (since : Since xxh3_64 before after passed old)
    (alive : Alive xxh3_64 before after passed old n values object) {n' : Nat}
    {values' : List StoredValue}
    (alive' : Alive xxh3_64 before after passed old n' values' object')
    (mem : c ∈ after.collections) (named : c.name = old.name) (smaller : c.staticSize ≤ n')
    (fewProperties : ∀ c ∈ after.collections, c.properties.length < 2 ^ 16)
    (few : before.collections.length ≤ 2 ^ 16) (few' : after.collections.length ≤ 2 ^ 16)
    (rewrote : Rewrote c n updates values values')
    (dynamic : ∀ i q, c.getProperty i = some q → n ≤ q.offset → lastUpdate updates i = none →
      zeroValue q.dataType = .null) (id : Int64) :
    UpdatesOnly before after passed old c updates (.object id (sectionAt object 3 n) c)
      (.object id (sectionAt object' 3 n') c) := by
  refine ⟨fun index name knows kept => ?_, fun index name knows lost => ?_⟩
  · obtain ⟨q, names⟩ := names_of_knows (fewProperties c mem) knows
    obtain ⟨p, v, v', has', type, offset, made, last, source⟩ := rewrote _ name q names
    obtain ⟨p₀, own⟩ := since.exists_property kept
    obtain ⟨v₀, ⟨at_, listed⟩, whole⟩ := alive.kept name p₀ own kept
    obtain ⟨v₀', ⟨at', listed'⟩, whole'⟩ := alive'.kept name p₀ own kept
    obtain ⟨rfl, rfl⟩ := alive'.contains.has_unique listed' has'
    have slot := (alive.contains.stands _ listed).slot
    have positive := p.dataType.staticSize_pos
    simp only at slot
    rcases source with has | ⟨behind, -⟩
    · obtain ⟨-, rfl⟩ := alive.contains.has_unique listed has
      rw [type] at last
      exact ⟨p, own, v, v', whole, whole', alive.stillReads since mem named fewProperties few few' own
        kept has id knows, alive'.stillReads since mem named fewProperties few few' own kept has' id
        knows, last⟩
    · omega
  · obtain ⟨q, names⟩ := names_of_knows (fewProperties c mem) knows
    have own := List.mem_of_getElem? names.2
    have slot := (since.laid'.collection mem).inside _ own
    have positive := q.dataType.staticSize_pos
    simp only at slot
    have found : c.getProperty index.toUInt16 = some q := getProperty_eq_some.mpr ⟨name, names⟩
    obtain ⟨p, v, v', has', type, offset, made, last, source⟩ := rewrote _ name q names
    have reads' := alive'.readsBack since mem named own lost has' (by omega)
      (show (Reader.object id (sectionAt object' 3 n') c).getProperty index = some q from found)
    unfold Updated at last
    refine ⟨fun q' found' outside => Reader.absent_of_outside found' outside, fun unnamed => ?_,
      fun value last_ => ?_⟩
    · rw [unnamed] at last
      obtain rfl : v' = v := last
      refine ⟨q, v', found, ?_, reads'⟩
      rcases source with has | ⟨behind, zero⟩
      · obtain ⟨at_, listed⟩ := has
        have slot := (alive.contains.stands _ listed).slot
        simp only [← type, ← offset] at slot
        exact alive.readsBack since mem named own lost ⟨at_, listed⟩ (by omega) found
      · have null := dynamic _ q found behind unnamed
        rw [zero, null]
        exact (Reader.absent_of_outside found
          (decide_eq_false (Nat.not_lt.mpr behind))).readsNull null
    · rw [last_] at last
      exact ⟨q, v', found, last, reads'⟩

theorem Alive.reader_eq (alive : Alive xxh3_64 before d passed old n values object) (id : Int64) :
    c.reader id object = some (.object id (sectionAt object 3 n) c) := by
  rw [NativeCollection.reader, alive.contains.fromBytes]
  rfl

/-- What gets its slot by an update is named by it, or null where it is zero. -/
theorem Alive.dynamic_of_reopens (since : Since xxh3_64 before after passed old)
    (alive : Alive xxh3_64 before after passed old n values object) (mem : c ∈ after.collections)
    (reopens : c.Reopens object updates) {i : UInt16} {q : NativeProperty}
    (found : c.getProperty i = some q) (behind : n ≤ q.offset)
    (unnamed : lastUpdate updates i = none) : zeroValue q.dataType = .null := by
  rcases reopens with slots | ⟨d', parsed, -, dynamic⟩
  · obtain ⟨name, names⟩ := getProperty_eq_some.mp found
    have slot := (since.laid'.collection mem).inside _ (List.mem_of_getElem? names.2)
    have positive := q.dataType.staticSize_pos
    have smaller := alive.staticSize_le slots
    simp only at slot
    omega
  · cases alive.contains.fromBytes.symm.trans parsed
    exact dynamic i q found behind unnamed

/-- `update` stores what `update_object` makes of the stored object. -/
theorem NativeCollection.objects_of_update {txn txn' : NativeTxn} {id : Int64} {found : Bool}
    (stored : c.objects txn id = some object)
    (done : c.update xxh3_64 txn id updates = .ok (txn', found)) :
    found = true ∧ ∃ object', c.updateObject object updates = .ok object' ∧
      c.objects txn' id = some object' := by
  simp only [NativeCollection.update, bind_eq_ok, cursorDb_eq_ok] at done
  obtain ⟨db, hdb, done⟩ := done
  rw [objects_of_db hdb] at stored
  rw [stored] at done
  simp only [bind_eq_ok, pure_eq_ok, Prod.mk.injEq] at done
  obtain ⟨object', updated, txn₁, put, rfl, rfl⟩ := done
  refine ⟨rfl, object', updated, ?_⟩
  simp only [NativeCollection.put, bind_eq_ok, cursorDb_eq_ok, orPanic_eq_ok, pure_eq_ok] at put
  obtain ⟨db', hdb', txn₂, -, o, -, txn₃, -, rfl⟩ := put
  rw [objects_of_db hdb', NativeTxn.get_putObject, if_pos rfl]

/-- An update of an object that can be opened with the slots of its collection, in a life of such
updates, changes what it names and nothing else. -/
theorem update_frame {events : List Event}
    (run : Run (Database.Step xxh3_64) Database.new events before)
    (memOld : old ∈ before.collections)
    (life : Life xxh3_64 NativeCollection.Reopens before old passed after object)
    (mem : c ∈ after.collections) (named : c.name = old.name) (reopens : c.Reopens object updates)
    (fewProperties : ∀ c ∈ before.collections ++ after.collections, c.properties.length < 2 ^ 16)
    (few : before.collections.length ≤ 2 ^ 16) (few' : after.collections.length ≤ 2 ^ 16)
    {txn : NativeTxn} {id : Int64} (stored : c.objects txn id = some object) :
    UpdatesStored xxh3_64 before after passed old c txn id updates object := by
  intro txn' found done
  obtain ⟨since, n, values, alive⟩ := life.alive (fun _ _ _ reopens => reopens) run memOld
    fun c mem => fewProperties c (List.mem_append_left _ mem)
  obtain ⟨rfl, object', updated, stored'⟩ := NativeCollection.objects_of_update stored done
  obtain ⟨s, shown, reopened⟩ := alive.reopened since mem named reopens updated
  obtain ⟨values', alive', rewrote, -⟩ := alive.update since mem named reopened updated
  exact ⟨rfl, object', _, _, stored', alive.reader_eq id, alive'.reader_eq id,
    alive.updatesOnly since alive' mem named le_rfl
      (fun c mem => fewProperties c (List.mem_append_right _ mem)) few few' rewrote
      (fun _ _ => alive.dynamic_of_reopens since mem reopens) id⟩

end

/-! ## Levels -/

theorem life_of_level
    (condition : NativeCollection → Bytes → List (UInt16 × Option IsarValue) → Prop) :
    Life (fun _ => 0) condition ⟨levelStorage, [levels]⟩ levels [] ⟨levelStorage, [levels]⟩
      [1, 0, 0, 7] := by
  refine @Life.written _ condition ⟨levelStorage, [levels]⟩ levels 1 [(1, .byte 7)]
    ⟨1, ⟨[1, 0, 0, 7], 3, 1⟩⟩ ⟨⟨show 1 < 2 ^ 16 by decide, ?_⟩, trivial⟩ (List.nodup_singleton _) rfl
  exact ⟨⟨.byte, 0, none⟩, rfl, rfl⟩

theorem levels_run : Run (Database.Step fun _ => 0) .new [.migrate noFaults [levelSchema]]
    ⟨levelStorage, [levels]⟩ := .cons (.migrate rfl (by decide) rfl) .nil

/-- The levels with two strings behind their value. -/
def labelledLevelSchema : IsarSchema :=
  { levelSchema with properties := [⟨some "value", .byte, none⟩, ⟨some "name", .string, none⟩,
      ⟨some "note", .string, none⟩] }

def labelledLevels : NativeCollection :=
  .new 0 "Level" (some "id")
    [("value", ⟨.byte, 0, none⟩), ("name", ⟨.string, 1, none⟩), ("note", ⟨.string, 4, none⟩)] []
    (some "Level")

def labelledLevelStorage : Storage :=
  (performMigration noFaults [labelledLevelSchema] levelStorage).1

/-- The level behind an update of its name, which has opened it with the slots of both strings. -/
def labelledLevel : Bytes := [7, 0, 0, 7, 7, 0, 0, 0, 0, 0, 1, 0, 0, 120]

theorem life_of_labelledLevel :
    Life (fun _ => 0) NativeCollection.Reopens ⟨levelStorage, [levels]⟩ levels
      [(.migrate noFaults [labelledLevelSchema], ⟨labelledLevelStorage, [labelledLevels]⟩)]
      ⟨labelledLevelStorage, [labelledLevels]⟩ labelledLevel := by
  have migrated : Database.Step (fun _ => 0) ⟨levelStorage, [levels]⟩
      (.migrate noFaults [labelledLevelSchema]) ⟨labelledLevelStorage, [labelledLevels]⟩ :=
    @Database.Step.migrate _ _ noFaults [labelledLevelSchema] labelledLevelStorage
      [(labelledLevels, 1)] rfl (by decide) rfl
  have life := (life_of_level NativeCollection.Reopens).step migrated rfl
  refine @Life.update _ _ _ _ _ _ labelledLevels _ _ [(2, some (.string ['x']))] life
    (List.mem_singleton_self _) rfl ?_ (by decide +kernel)
  refine Or.inr ⟨⟨[7], 1⟩, rfl, rfl, fun i q found behind _ => ?_⟩
  obtain ⟨name, positive, there⟩ := getProperty_eq_some.mp found
  have mem := List.mem_of_getElem? there
  simp only [labelledLevels, NativeCollection.new, List.mem_cons, List.not_mem_nil, or_false,
    Prod.mk.injEq] at mem
  rcases mem with ⟨rfl, rfl⟩ | ⟨rfl, rfl⟩ | ⟨rfl, rfl⟩
  · exact absurd behind (by decide)
  · rfl
  · rfl

/-- The value is updated; the name that an update has written and the note stay. -/
theorem update_frame_on_levels :
    UpdatesStored (fun _ => 0) ⟨levelStorage, [levels]⟩ ⟨labelledLevelStorage, [labelledLevels]⟩
      [(.migrate noFaults [labelledLevelSchema], ⟨labelledLevelStorage, [labelledLevels]⟩)] levels
      labelledLevels (NativeTxn.empty.putObject "Level" 1 labelledLevel) 1
      [(1, some (.integer 9))] labelledLevel := by
  have slots : labelledLevels.HasSlots labelledLevel :=
    ⟨⟨[7, 7, 0, 0, 0, 0, 0, 1, 0, 0, 120], 7⟩, rfl, le_rfl⟩
  refine update_frame levels_run (List.mem_singleton_self _) life_of_labelledLevel
    (List.mem_singleton_self _) rfl (Or.inl slots) ?_ (show 1 ≤ 2 ^ 16 by decide)
    (show 1 ≤ 2 ^ 16 by decide) rfl
  decide

/-- A transaction in which the level 1 is stored as it was written before it had a name. -/
def levelTxn : NativeTxn := NativeTxn.empty.putObject "Level" 1 [1, 0, 0, 7]

theorem isNull_eq_of_readsBack {all : List NativeCollection} {r r' : Reader} {index : UInt32}
    {t : DataType} {v : Written} (reads : r.ReadsBack all index t v)
    (reads' : r'.ReadsBack all index t v) : r.isNull index = r'.isNull index := by
  cases v with
  | null => exact reads.1.trans reads'.1.symm
  | object _ | list _ _ => exact reads.1.trans reads'.1.symm
  | _ => exact reads.2.trans reads'.2.symm

/-- The level has got a name in front of a new value. Without the slots of these, an update of the
name lets the value read as zero. -/
theorem update_not_frame : ¬ ∀ (xxh3_64 : Bytes → UInt64) (before after : Database)
    (events : List Event) (passed : List (Event × Database)) (old c : NativeCollection)
    (object : Bytes) (txn : NativeTxn) (id : Int64)
    (updates : List (UInt16 × Option IsarValue)),
    Run (Database.Step xxh3_64) Database.new events before → old ∈ before.collections →
    Life xxh3_64 (fun _ _ _ => True) before old passed after object → c ∈ after.collections →
    c.name = old.name → c.objects txn id = some object →
    UpdatesStored xxh3_64 before after passed old c txn id updates object := by
  intro all
  have migrated : Database.Step (fun _ => 0) ⟨levelStorage, [levels]⟩
      (.migrate noFaults [namedLevelSchema]) ⟨namedLevelStorage, [namedLevels]⟩ :=
    @Database.Step.migrate _ _ noFaults [namedLevelSchema] namedLevelStorage [(namedLevels, 1)] rfl
      (by decide) rfl
  have life := (life_of_level fun _ _ _ => True).step migrated rfl
  have stored : namedLevels.objects levelTxn 1 = some [1, 0, 0, 7] := rfl
  have frame := all _ _ _ _ _ _ namedLevels _ _ _ [(1, some (.string ['x']))] levels_run
    (List.mem_singleton_self _) life (List.mem_singleton_self _) rfl stored
  obtain ⟨txn', done⟩ : ∃ txn', namedLevels.update (fun _ => 0) levelTxn 1
      [(1, some (.string ['x']))] = .ok (txn', true) := ⟨_, rfl⟩
  obtain ⟨-, object', r, r', stored', earlier, reader, only⟩ := frame txn' true done
  obtain ⟨-, bytes, updated, again⟩ := NativeCollection.objects_of_update stored done
  have made : namedLevels.updateObject [1, 0, 0, 7] [(1, some (.string ['x']))] =
      .ok [8, 0, 0, 7, 0, 0, 0, 0, 8, 0, 0, 1, 0, 0, 120] := by decide +kernel
  cases updated.symm.trans made
  cases again.symm.trans stored'
  cases reader
  cases earlier
  have lost : ¬ Kept ⟨levelStorage, [levels]⟩
      [(.migrate noFaults [namedLevelSchema], ⟨namedLevelStorage, [namedLevels]⟩)] "Level"
      "value" := by
    rintro ⟨p, named, ⟨e, found, mem⟩, always⟩
    obtain ⟨e', found', mem'⟩ := always _ (List.mem_singleton_self _)
    have byte : (levelStorage.info.find "Level").map IsarSchema.properties =
        some [⟨some "value", .byte, none⟩] := rfl
    have int : (namedLevelStorage.info.find "Level").map IsarSchema.properties =
        some [⟨none, .byte, none⟩, ⟨some "value", .int, none⟩, ⟨some "name", .string, none⟩] := rfl
    rw [show levelStorage.info.find "Level" = some e from found] at byte
    rw [show namedLevelStorage.info.find "Level" = some e' from found'] at int
    rw [Option.some.inj byte, List.mem_singleton] at mem
    rw [Option.some.inj int, mem] at mem'
    revert mem'
    decide
  obtain ⟨_, _, -, reads, reads'⟩ := (only.added 2 "value" ⟨by decide, rfl⟩ lost).unnamed rfl
  have same := isNull_eq_of_readsBack reads reads'
  revert same
  decide +kernel

end IsarPlus.Native
