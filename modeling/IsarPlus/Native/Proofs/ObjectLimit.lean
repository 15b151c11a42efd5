import IsarPlus.Native.Insert
import IsarPlus.Native.Proofs.FailedMigration
import IsarPlus.Native.Proofs.OpenedCollections
import IsarPlus.Native.Proofs.Progress
import IsarPlus.Native.Proofs.Reading

/-!
# The size of objects

The limit that `save` checks is twice what three bytes can address. Below it, an object is stored as
it was written exactly when its offsets and lengths fit three bytes; the others panic on the way.
-/

namespace IsarPlus.Native
open ByteBuffer Scalar OrderedStore
open Sqlite (Written)

/-- A property of a type that has keys gives a value for them. -/
theorem IsarDeserializer.Legible.isSome_read {all : List NativeCollection} {d : IsarDeserializer}
    {p : NativeProperty} (h : d.Legible all p) (notObject : p.dataType ≠ .object)
    (notJson : p.dataType ≠ .json) (notList : p.dataType.elementType = none) :
    (IndexValue.read d p).isSome := by
  have isNull := h.isNull
  unfold IndexValue.read
  cases type : p.dataType <;> rw [type] at isNull notList <;>
    simp only [IsarDeserializer.isNull, Option.isSome_map] at isNull ⊢
  case byte => exact h.byte type
  case string => exact h.dynamic (Or.inl type)
  all_goals first
    | exact isNull
    | exact absurd type notObject
    | exact absurd type notJson
    | cases notList

/-! ## New inserts -/

namespace NativeCollection

variable {all : List NativeCollection} {c : NativeCollection} {count : Nat}
  {writes : List (UInt32 × Written)}

/-- The serializer of a new insert. -/
def newObject (c : NativeCollection) : IsarSerializer where
  buffer := leBytes 3 c.staticSize ++ List.replicate c.staticSize 0
  offset := 3
  staticSize := c.staticSize

@[simp] theorem length_newObject (c : NativeCollection) :
    c.newObject.buffer.length = 3 + c.staticSize := by
  simp [newObject]

theorem open_newObject (c : NativeCollection) : c.newObject.Open := by
  unfold IsarSerializer.Open
  rw [length_newObject]
  exact le_rfl

theorem header_newObject (c : NativeCollection) :
    At c.newObject.buffer 0 (leBytes 3 c.staticSize) := by
  have header := at_append_right [] (leBytes 3 c.staticSize) (List.replicate c.staticSize 0)
  rwa [List.nil_append, List.length_nil] at header

theorem zeros_newObject (c : NativeCollection) :
    At c.newObject.buffer 3 (List.replicate c.staticSize 0) := by
  have zeros := at_append_right (leBytes 3 c.staticSize) (List.replicate c.staticSize 0) []
  rwa [List.append_nil, length_leBytes] at zeros

theorem newInsert_eq (count : Nat) (small : Fits24 c.staticSize) :
    c.newInsert count = some ⟨count, c.newObject⟩ := by
  have opened := @IsarSerializer.new_append [] c.staticSize small
  simp only [List.length_nil, List.nil_append, Nat.zero_add] at opened
  simp only [newInsert, opened, Option.bind_eq_bind, Option.bind_some, Option.pure_def, newObject]

theorem newInsert_eq_none (large : ¬ Fits24 c.staticSize) : c.newInsert count = none := by
  have panics : IsarSerializer.new [] 0 c.staticSize = none := IsarSerializer.new_eq_none large
  simp only [newInsert, panics, Option.bind_eq_bind, Option.bind_none]

theorem writeObject_eq (small : Fits24 c.staticSize) :
    c.writeObject all count writes =
      ((WriterImpl.object c).writeAll all c.newObject writes).map (NativeInsert.mk count) := by
  simp only [writeObject, newInsert_eq count small, Option.bind_eq_bind, Option.bind_some,
    Option.pure_def]
  cases (WriterImpl.object c).writeAll all c.newObject writes <;> rfl

/-- An object that fits is written. -/
theorem writeObject_spec (count : Nat) (laid : ∀ c ∈ all, c.Laid) (mem : c ∈ all)
    (typed : TypedAll all (.object c) writes) (nodup : (writes.map Prod.fst).Nodup)
    (fits : c.ObjectFits all writes) :
    ∃ insert, c.writeObject all count writes = some insert ∧ insert.remaining = count ∧
      c.Encodes all writes insert.object.finish := by
  have laidW := WriterImpl.laid_object (laid c mem)
  obtain ⟨s, eq, wrote, holds, others⟩ := writeAll_spec laid (WriterImpl.exact_object c) laidW
    c.open_newObject rfl typed nodup (by rw [length_newObject]; exact fits.2)
  have longer := wrote.length
  rw [length_newObject] at longer holds
  refine ⟨⟨count, s⟩, ?_, rfl, ?_, longer, holds, ?_⟩
  · rw [writeObject_eq fits.1, eq, Option.map_some]
  · exact wrote.keeps c.header_newObject (Or.inl (by rw [length_leBytes]; exact le_rfl))
  · intro index p absent found
    have inside : p.offset + p.dataType.staticSize ≤ c.staticSize := laidW.inside index p found
    have zero := IsarSerializer.at_replicate_of_at c.zeros_newObject inside
    have same : AgreeOn c.newObject.buffer s.buffer (3 + p.offset)
        (3 + p.offset + p.dataType.staticSize) := others index p absent found
    refine zero.congr (by rwa [List.length_replicate]) ?_
    show _ ≤ s.buffer.length
    rw [List.length_replicate]
    omega

/-- An object that does not fit panics. -/
theorem objectFits_of_writeObject {insert : NativeInsert} (laid : ∀ c ∈ all, c.Laid) (mem : c ∈ all)
    (typed : TypedAll all (.object c) writes)
    (written : c.writeObject all count writes = some insert) : c.ObjectFits all writes := by
  have small : Fits24 c.staticSize := by
    by_contra large
    rw [writeObject, newInsert_eq_none large] at written
    cases written
  refine ⟨small, ?_⟩
  by_contra large
  have panics := writeAll_eq_none_of_not_fits laid (WriterImpl.exact_object c)
    (WriterImpl.laid_object (laid c mem)) c.open_newObject rfl typed
    (by rw [length_newObject]; exact large)
  rw [writeObject_eq small, panics] at written
  cases written

/-! ## Encoded objects -/

variable {object : Bytes}

theorem Encodes.fromBytes (h : c.Encodes all writes object) (small : Fits24 c.staticSize) :
    IsarDeserializer.fromBytes object = some (sectionAt object 3 c.staticSize) := by
  simp only [IsarDeserializer.fromBytes, readU24, readLe_of_at h.header small, Option.bind_eq_bind,
    Option.bind_some, Option.pure_def]
  rfl

theorem reader_eq {id : Int64} (h : c.Encodes all writes object) (small : Fits24 c.staticSize) :
    c.reader id object = some ((WriterImpl.object c).reader id
      (sectionAt object 3 c.staticSize)) := by
  rw [reader, h.fromBytes small]
  rfl

/-- An encoded object reads back as it was written. -/
theorem Encodes.restores {id : Int64} (laid : ∀ c ∈ all, c.Laid) (mem : c ∈ all)
    (typed : TypedAll all (.object c) writes) (fits : c.ObjectFits all writes)
    (h : c.Encodes all writes object) : c.Restores all id object writes := by
  have laidW := WriterImpl.laid_object (laid c mem)
  refine ⟨_, reader_eq h fits.1, rfl, ?_, fun index => ?_⟩
  · exact h.holds.readsAll laid (WriterImpl.exact_object c) laidW _ trivial le_rfl
      typed fits.2
  · exact safe_section _ laidW typed le_rfl fits.2 h.holds h.zero index trivial

/-- Slots that are apart are at most as many as their section has bytes. -/
theorem length_le_staticSize (laid : c.Laid) : c.properties.length ≤ c.staticSize := by
  have distinct : (c.properties.map fun p => p.2.offset).Nodup := by
    refine List.pairwise_map.mpr (laid.apart.imp ?_)
    intro p q apart same
    have := p.2.dataType.staticSize_pos
    have := q.2.dataType.staticSize_pos
    omega
  have below : (c.properties.map fun p => p.2.offset) ⊆ List.range c.staticSize := by
    intro offset mem
    obtain ⟨p, listed, rfl⟩ := List.mem_map.mp mem
    have := p.2.dataType.staticSize_pos
    have := laid.inside p listed
    exact List.mem_range.mpr (by omega)
  have := (distinct.subperm below).length_le
  rwa [List.length_map, List.length_range] at this

/-- Every property of a collection has an index. -/
theorem exists_property (laid : c.Laid) (small : Fits24 c.staticSize) {name : String}
    {p : NativeProperty} (mem : (name, p) ∈ c.properties) :
    ∃ index, (WriterImpl.object c).property index = some p := by
  obtain ⟨i, lt, eq⟩ := List.mem_iff_getElem.mp mem
  have few := length_le_staticSize laid
  unfold Fits24 at small
  have toNat : (UInt32.ofNat (i + 1)).toNat = i + 1 := UInt32.toNat_ofNat_of_lt' (by
    show _ < 2 ^ 32
    omega)
  refine ⟨UInt32.ofNat (i + 1), WriterImpl.property_object.mpr ⟨fun zero => ?_, name, ?_⟩⟩
  · rw [zero] at toNat
    cases toNat
  · rw [toNat, Nat.add_sub_cancel, List.getElem?_eq_getElem lt, eq]

/-- An encoded object has a key in every index of its collection. -/
theorem Encodes.indexable (laid : ∀ c ∈ all, c.Laid) (mem : c ∈ all) (keyed : c.Keyed)
    (typed : TypedAll all (.object c) writes) (fits : c.ObjectFits all writes)
    (h : c.Encodes all writes object) : c.Indexable object := by
  refine ⟨_, h.fromBytes fits.1, fun index listed => isSome_mapM fun p own => ?_⟩
  obtain ⟨⟨name, memP⟩, notObject, notJson, notList⟩ := keyed index listed p own
  obtain ⟨i, property⟩ := exists_property (laid c mem) fits.1 memP
  have readable := readable_section (WriterImpl.laid_object (laid c mem)) typed le_rfl fits.2
    h.holds h.zero property
  exact readable.isSome_read notObject notJson notList

/-! ## Saves -/

variable {xxh3_64 : Bytes → UInt64} {txn : NativeTxn} {id : Int64} {insert : NativeInsert} {db : Db}

/-- `save` succeeds with every object within the limit that has a key in every index. -/
theorem save_ok (hdb : c.db = some db) (ready : c.Ready txn) (small : Fits24 c.staticSize)
    (todo : 0 < insert.remaining) (within : insert.object.finish.length ≤ maxObjSize)
    (new : c.Indexable insert.object.finish) :
    ∃ txn' insert', c.save xxh3_64 txn insert id = .ok (txn', insert') ∧ c.Ready txn' ∧
      c.objects txn' id = some insert.object.finish := by
  obtain ⟨txn', done, ready', stored⟩ := put_ok xxh3_64 id hdb ready new
  have opened := newInsert_eq 0 small
  have reset : IsarSerializer.new [] 0 c.staticSize = some c.newObject := by
    obtain ⟨object, new, eq⟩ := Option.bind_eq_some_iff.mp opened
    cases eq
    exact new
  refine ⟨txn', ⟨insert.remaining - 1, c.newObject⟩, ?_, ready', stored⟩
  simp only [save, if_pos todo, saveObject, if_neg (Nat.not_lt.mpr within), done, reset, orPanic,
    bind, Except.bind, pure, Except.pure]

/-- What `save` has stored was within the limit. -/
theorem within_of_save {txn' : NativeTxn} {insert' : NativeInsert}
    (saved : c.save xxh3_64 txn insert id = .ok (txn', insert')) :
    0 < insert.remaining ∧ insert.object.finish.length ≤ maxObjSize := by
  unfold save at saved
  split at saved
  · rename_i todo
    refine ⟨todo, Nat.not_lt.mp fun large => ?_⟩
    simp only [saveObject, if_pos large] at saved
    cases saved
  · cases saved

theorem Empty.ready (empty : c.Empty txn) : c.Ready txn where
  objects id bytes stored := by
    rw [empty.objects id] at stored
    cases stored
  ids index listed key value has := by
    rw [empty.entries index listed] at has
    cases has

/-- Objects that were written field by field have a key in every index. -/
theorem Filled.ready (hdb : c.db = some db) (laid : ∀ c ∈ all, c.Laid) (mem : c ∈ all)
    (keyed : c.Keyed) (filled : c.Filled all xxh3_64 txn) : c.Ready txn := by
  induction filled with
  | empty empty => exact empty.ready
  | save filled writable written saved ready =>
    obtain ⟨typed, nodup, -⟩ := writable
    have fits := objectFits_of_writeObject laid mem typed written
    obtain ⟨_, written', -, encodes⟩ := writeObject_spec _ laid mem typed nodup fits
    rw [written] at written'
    cases written'
    obtain ⟨todo, within⟩ := within_of_save saved
    obtain ⟨_, _, saved', ready', -⟩ := save_ok hdb ready fits.1 todo within
      (encodes.indexable laid mem keyed typed fits)
    rw [saved] at saved'
    cases saved'
    exact ready'
  | delete filled deleted ready =>
    obtain ⟨_, _, deleted', ready'⟩ := delete_ok _ _ hdb ready
    rw [deleted] at deleted'
    cases deleted'
    exact ready'
  | clear filled cleared ready => exact (clear_consistent cleared).ready

/-- The limit of the size is enforced for an object that is within it only if its static size, its
offsets and its lengths fit three bytes. -/
theorem limit_exact {d : Database} {events : List Event}
    (run : Run (Database.Step xxh3_64) Database.new events d) (opened : c ∈ d.collections)
    (hdb : c.db = some db) (filled : c.Filled d.collections xxh3_64 txn)
    (writable : c.Writable d.collections writes) (todo : 0 < count) :
    c.LimitEnforced d.collections xxh3_64 txn id count writes ↔
      (c.objectSize d.collections writes ≤ maxObjSize → c.ObjectFits d.collections writes) := by
  obtain ⟨typed, nodup, -⟩ := writable
  have ofSchemas := Database.Laid.run run
  have laid (c : NativeCollection) (mem : c ∈ d.collections) := ofSchemas.collection mem
  have keyed := ofSchemas.keyed opened
  have ready := filled.ready hdb laid opened keyed
  have encoded (insert : NativeInsert)
      (written : c.writeObject d.collections count writes = some insert) :
      c.ObjectFits d.collections writes ∧ insert.remaining = count ∧
        c.Encodes d.collections writes insert.object.finish := by
    have fits := objectFits_of_writeObject laid opened typed written
    obtain ⟨insert', written', rest⟩ := writeObject_spec _ laid opened typed nodup fits
    rw [written] at written'
    cases written'
    exact ⟨fits, rest⟩
  constructor
  · intro enforced within
    obtain ⟨insert, written⟩ := Option.isSome_iff_exists.mp (enforced.accepted within)
    exact (encoded insert written).1
  · intro fits
    refine ⟨fun within => ?_, fun insert written => ?_, fun insert written within => ?_,
      fun insert written large => ?_⟩
    · obtain ⟨insert, written, -⟩ := writeObject_spec count laid opened typed nodup
        (fits within)
      rw [written]
      rfl
    · exact (encoded insert written).2.2
    · obtain ⟨fits, remaining, encodes⟩ := encoded insert written
      obtain ⟨txn', insert', saved, -, stored⟩ := save_ok hdb ready fits.1 (by rwa [remaining])
        within (encodes.indexable laid opened keyed typed fits)
      exact ⟨txn', insert', saved, stored, encodes.restores laid opened typed fits⟩
    · have remaining := (encoded insert written).2.1
      simp only [save, remaining, if_pos todo, saveObject, if_pos large]
      rfl

end NativeCollection

/-! ## Files -/

/-- A collection with one list of bytes. -/
def fileSchema : IsarSchema where
  name := "File"
  idName := some "id"
  embedded := false
  properties := [⟨some "data", .byteList, none⟩]
  indexes := []
  version := 0

def files : NativeCollection :=
  .new 0 "File" (some "id") [("data", ⟨.byteList, 0, none⟩)] [] (some "File")

theorem files_opened : ∃ s, Run (Database.Step fun _ => 0) .new [.migrate noFaults [fileSchema]]
    ⟨s, [files]⟩ :=
  ⟨_, .cons (.migrate rfl (by decide) rfl) .nil⟩

theorem typed_file (data : Bytes) : TypedAll [files] (.object files) [(1, .byteList data)] :=
  ⟨⟨show 1 < 2 ^ 16 by decide, _, rfl, rfl⟩, trivial⟩

theorem filled_files : files.Filled [files] (fun _ => 0) .empty :=
  .empty ⟨fun _ => rfl, by rintro _ ⟨⟩⟩

theorem limit_exact_on_files :
    files.LimitEnforced [files] (fun _ => 0) .empty 1 1 [(1, .byteList [7])] ↔
      (files.objectSize [files] [(1, .byteList [7])] ≤ maxObjSize →
        files.ObjectFits [files] [(1, .byteList [7])]) := by
  obtain ⟨s, run⟩ := files_opened
  exact NativeCollection.limit_exact run (List.mem_singleton_self files) rfl filled_files
    ⟨typed_file [7], by decide, show files.objectSize [files] [(1, .byteList [7])] < 2 ^ 32 by decide⟩
    (by decide)

/-- A list of 16 MiB is within the limit, and its length takes four bytes. -/
theorem limit_not_enforced : ¬ ∀ (xxh3_64 : Bytes → UInt64) (d : Database) (events : List Event)
    (c : NativeCollection) (db : Db) (txn : NativeTxn) (id : Int64) (count : Nat)
    (writes : List (UInt32 × Written)),
    Run (Database.Step xxh3_64) Database.new events d → c ∈ d.collections → c.db = some db →
      c.Filled d.collections xxh3_64 txn → c.Writable d.collections writes → 0 < count →
      c.LimitEnforced d.collections xxh3_64 txn id count writes := by
  intro all
  obtain ⟨s, run⟩ := files_opened
  obtain ⟨data, length⟩ : ∃ data : Bytes, data.length = 2 ^ 24 :=
    ⟨List.replicate (2 ^ 24) 0, List.length_replicate⟩
  have typed := typed_file data
  have property : (WriterImpl.object files).property 1 = some ⟨.byteList, 0, none⟩ := rfl
  have within : files.objectSize [files] [(1, .byteList data)] ≤ maxObjSize := by
    simp only [NativeCollection.objectSize, dynamicSizeAll, property, dynamicSize, length]
    decide
  have enforced := all _ _ _ files "File" _ 1 1 _ run (List.mem_singleton_self files) rfl
    filled_files ⟨typed, List.nodup_singleton _, within.trans_lt (by decide)⟩ Nat.one_pos
  obtain ⟨insert, written⟩ := Option.isSome_iff_exists.mp (enforced.accepted within)
  have laid (c : NativeCollection) (mem : c ∈ [files]) := (Database.Laid.run run).collection mem
  obtain ⟨-, fits⟩ :=
    NativeCollection.objectFits_of_writeObject laid (List.mem_singleton_self files) typed written
  simp only [FitsAll, property, FitsAt, length] at fits
  exact absurd fits.1.2 (Nat.lt_irrefl _)

end IsarPlus.Native
