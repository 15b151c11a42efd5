import IsarPlus.Native.Proofs.ObjectLimit

/-!
# The round trip of native objects

Every tree of writes whose encoded form has at most 2^24 bytes can be written, and reads back as it
was. The index of a property has 16 bits, and a byte has no null.
-/

namespace IsarPlus.Native
open ByteBuffer Scalar
open Sqlite (Written)

/-! ## Small objects -/

section
variable {all : List NativeCollection}

mutual

/-- In a buffer of at most 2^24 bytes all offsets and lengths fit. -/
theorem fits_of_size {base at_ : Nat} {p : NativeProperty} :
    ∀ {v : Written}, at_ + dynamicSize all p v ≤ 2 ^ 24 → 0 < base → FitsAt all base at_ p v
  | .null, _, _ => trivial
  | .bool _, _, _ => trivial
  | .byte _, _, _ => trivial
  | .int _, _, _ => trivial
  | .float _, _, _ => trivial
  | .long _, _, _ => trivial
  | .double _, _, _ => trivial
  | .string value, size, _ => by
    simp only [dynamicSize] at size
    simp only [FitsAt, Fits24]
    omega
  | .byteList value, size, _ => by
    simp only [dynamicSize] at size
    simp only [FitsAt, Fits24]
    omega
  | .object writes, size, _ => by
    cases target : p.embedded all with
    | none => simp only [FitsAt, target]
    | some c =>
      simp only [dynamicSize, target] at size
      simp only [FitsAt, target, Fits24]
      refine ⟨by omega, by omega, fitsAll_of_size ?_ (by omega)⟩
      omega
  | .list length writes, size, _ => by
    cases elements : p.dataType.elementType with
    | none => simp only [FitsAt, elements]
    | some t =>
      simp only [dynamicSize, elements] at size
      simp only [FitsAt, elements, Fits24]
      refine ⟨by omega, by omega, fitsAll_of_size ?_ (by omega)⟩
      omega

theorem fitsAll_of_size {base at_ : Nat} {w : WriterImpl} :
    ∀ {writes : List (UInt32 × Written)}, at_ + dynamicSizeAll all w writes ≤ 2 ^ 24 → 0 < base →
      FitsAll all base at_ w writes
  | [], _, _ => trivial
  | (index, value) :: writes, size, positive => by
    cases found : w.property index with
    | none =>
      simp only [dynamicSizeAll, found] at size
      simp only [FitsAll, found]
      exact fitsAll_of_size (by omega) positive
    | some p =>
      simp only [dynamicSizeAll, found] at size
      simp only [FitsAll, found]
      exact ⟨fits_of_size (by omega) positive, fitsAll_of_size (by omega) positive⟩

end

theorem NativeCollection.objectFits_of_size {c : NativeCollection}
    {writes : List (UInt32 × Written)} (size : c.objectSize all writes ≤ 2 ^ 24) :
    c.ObjectFits all writes := by
  unfold objectSize at size
  refine ⟨?_, fitsAll_of_size size (by decide)⟩
  unfold Fits24
  omega

end

/-- Whatever is written within 2^24 bytes reads back, whatever the order of the writes. -/
theorem round_trip {xxh3_64 : Bytes → UInt64} {d : Database} {events : List Event}
    (run : Run (Database.Step xxh3_64) Database.new events d) {c : NativeCollection}
    (opened : c ∈ d.collections) {writes : List (UInt32 × Written)}
    (typed : TypedAll d.collections (.object c) writes) (nodup : (writes.map Prod.fst).Nodup)
    (size : c.objectSize d.collections writes ≤ 2 ^ 24) (count : Nat) (id : Int64) :
    ∃ insert, c.writeObject d.collections count writes = some insert ∧
      insert.object.finish.length = c.objectSize d.collections writes ∧
      c.Restores d.collections id insert.object.finish writes := by
  have laid (c : NativeCollection) (mem : c ∈ d.collections) :=
    (Database.Laid.run run).collection mem
  have fits := NativeCollection.objectFits_of_size size
  obtain ⟨insert, written, -, encodes⟩ :=
    NativeCollection.writeObject_spec count laid opened typed nodup fits
  exact ⟨insert, written, encodes.length, encodes.restores laid opened typed fits⟩

/-! ## Levels -/

/-- A collection with one byte. -/
def levelSchema : IsarSchema where
  name := "Level"
  idName := some "id"
  embedded := false
  properties := [⟨some "value", .byte, none⟩]
  indexes := []
  version := 0

def levels : NativeCollection :=
  .new 0 "Level" (some "id") [("value", ⟨.byte, 0, none⟩)] [] (some "Level")

theorem levels_opened : ∃ s, Run (Database.Step fun _ => 0) .new [.migrate noFaults [levelSchema]]
    ⟨s, [levels]⟩ :=
  ⟨_, .cons (.migrate rfl (by decide) rfl) .nil⟩

/-! ## Tracks -/

/-- An embedded point. -/
def pointSchema : IsarSchema where
  name := "Point"
  idName := none
  embedded := true
  properties := [⟨some "x", .int, none⟩]
  indexes := []
  version := 0

/-- A collection with a string, an embedded object and a list. -/
def trackSchema : IsarSchema where
  name := "Track"
  idName := some "id"
  embedded := false
  properties := [⟨some "name", .string, none⟩, ⟨some "start", .object, some "Point"⟩,
    ⟨some "marks", .intList, none⟩]
  indexes := []
  version := 0

def points : NativeCollection := .new 0 "Point" none [("x", ⟨.int, 0, none⟩)] [] none

def tracks : NativeCollection :=
  .new 1 "Track" (some "id")
    [("name", ⟨.string, 0, none⟩), ("start", ⟨.object, 3, some 0⟩), ("marks", ⟨.intList, 6, none⟩)]
    [] (some "Track")

theorem tracks_opened : ∃ s, Run (Database.Step fun _ => 0) .new
    [.migrate noFaults [pointSchema, trackSchema]] ⟨s, [points, tracks]⟩ :=
  ⟨_, .cons (.migrate rfl (by decide) rfl) .nil⟩

/-- A track, its properties out of their order and one element of the list null. -/
def trackWrites : List (UInt32 × Written) :=
  [(3, .list 2 [(1, .null), (0, .int 5)]), (1, .string ['a']), (2, .object [(1, .int 3)])]

theorem round_trip_on_tracks :
    ∃ insert, tracks.writeObject [points, tracks] 1 trackWrites = some insert ∧
      insert.object.finish.length = tracks.objectSize [points, tracks] trackWrites ∧
      tracks.Restores [points, tracks] 0 insert.object.finish trackWrites := by
  obtain ⟨s, run⟩ := tracks_opened
  have typed : TypedAll [points, tracks] (.object tracks) trackWrites := by
    refine ⟨⟨show 3 < 2 ^ 16 by decide, _, rfl, ?_⟩, ⟨show 1 < 2 ^ 16 by decide, _, rfl, Or.inl rfl⟩,
      ⟨show 2 < 2 ^ 16 by decide, _, rfl, ?_⟩, trivial⟩
    · refine ⟨⟨by decide, fun index below => ?_⟩, _, rfl, ⟨trivial, _, rfl, trivial⟩,
        ⟨trivial, _, rfl, rfl⟩, trivial⟩
      obtain ⟨n, rfl, small⟩ : ∃ n, index = UInt32.ofNat n ∧ n < 2 :=
        ⟨index.toNat, UInt32.ofNat_toNat.symm, below⟩
      interval_cases n <;> decide
    · exact ⟨rfl, by decide, _, rfl, ⟨show 1 < 2 ^ 16 by decide, _, rfl, rfl⟩, trivial⟩
  exact round_trip run (List.mem_cons_of_mem _ List.mem_cons_self) typed (by decide)
    (show tracks.objectSize [points, tracks] trackWrites ≤ 2 ^ 24 by decide) 1 0

/-! ## Many properties -/

def flagName (i : Nat) : String := String.ofList (List.replicate (i + 1) 'f')

/-- A schema of `n` flags. -/
def flags (n : Nat) : IsarSchema where
  name := "Flags"
  idName := some "id"
  embedded := false
  properties := (List.range n).map fun i => ⟨some (flagName i), .bool, none⟩
  indexes := []
  version := 0

theorem flagName_injective : Function.Injective flagName := by
  intro i j same
  have := congrArg (fun s => s.toList.length) same
  simpa [flagName] using this

theorem verifyName_flagName (i : Nat) : IsarSchema.verifyName (flagName i) = .ok () := by
  simp [IsarSchema.verifyName, flagName, List.replicate_succ]

theorem forM_ok {α : Type} {l : List α} {f : α → Result Unit} (h : ∀ a ∈ l, f a = .ok ()) :
    l.forM f = .ok () := by
  induction l with
  | nil => rfl
  | cons a l ih =>
    show (f a >>= fun _ => l.forM f) = .ok ()
    rw [h a List.mem_cons_self]
    exact ih fun a mem => h a (List.mem_cons_of_mem _ mem)

theorem verify_flags (n : Nat) : IsarSchema.verifySchemas [flags n] = .ok () := by
  refine forM_ok fun schema mem => ?_
  cases List.mem_singleton.mp mem
  have each : (flags n).properties.forM (IsarSchema.verifyProperty [flags n]) = .ok () := by
    refine forM_ok fun p mem => ?_
    obtain ⟨i, -, rfl⟩ := List.mem_map.mp mem
    simp [IsarSchema.verifyProperty, verifyName_flagName, IsarSchema.verifyTarget]
  have names : ((flags n).properties.map PropertySchema.name).Nodup := by
    simp only [flags, List.map_map]
    exact List.nodup_range.map fun i j same => flagName_injective (Option.some.inj same)
  show (do
    IsarSchema.verifyName "Flags"
    IsarSchema.refuse (false = true ∧ ([] : List IndexSchema) ≠ []) _
    (flags n).properties.forM (IsarSchema.verifyProperty [flags n])
    IsarSchema.refuse (¬ ((flags n).properties.map PropertySchema.name).Nodup) _
    IsarSchema.refuse (¬ (([] : List IndexSchema).map IndexSchema.name).Nodup) _
    ([] : List IndexSchema).forM (flags n).verifyIndex) = .ok ()
  rw [each, IsarSchema.refuse, IsarSchema.refuse, if_neg (not_not.mpr names)]
  rfl

/-- A database of nothing but flags. -/
theorem flags_opened (n : Nat) : ∃ s properties,
    Run (Database.Step fun _ => 0) .new [.migrate noFaults [flags n]]
      ⟨s, [.new 0 "Flags" (some "id") properties [] (some "Flags")]⟩ ∧
    properties.length = n ∧
    ∀ e ∈ properties, e.2.dataType = .bool ∧ e.2.offset < n := by
  have scalar : ∀ p ∈ (flags n).properties, p.collection = none ∧ p.dataType = .bool := by
    intro p mem
    obtain ⟨i, -, rfl⟩ := List.mem_map.mp mem
    exact ⟨rfl, rfl⟩
  obtain ⟨unsorted, native⟩ := Option.isSome_iff_exists.mp
    (isSome_getProperties ["Flags"] (fun p mem => (scalar p mem).1) 0)
  have slots := slots_of_getProperties native
  have all_named : ((flags n).properties.filter fun p => p.name.isSome) = (flags n).properties := by
    refine List.filter_eq_self.mpr fun p mem => ?_
    obtain ⟨i, -, rfl⟩ := List.mem_map.mp mem
    rfl
  have known (e : String × NativeProperty) (mem : e ∈ unsorted) :
      some e.1 ∈ (flags n).properties.map PropertySchema.name := by
    have := List.mem_map_of_mem (f := some ∘ Prod.fst) mem
    rw [slots.names, all_named] at this
    exact this
  obtain ⟨properties, sorted⟩ := Option.isSome_iff_exists.mp
    (isSome_sortProperties known)
  have perm := perm_sortProperties sorted
  obtain ⟨s, counter, migrated⟩ := performMigration_new native sorted rfl rfl rfl
  have sizes : slotSizes (flags n).properties = n := by
    simp [slotSizes, flags, DataType.staticSize, Function.comp_def]
  refine ⟨s, properties, .cons (.migrate (verify_flags n) (List.nodup_singleton _) migrated) .nil,
    ?_, fun e mem => ?_⟩
  · have lengths := congrArg List.length slots.names
    rw [all_named] at lengths
    simpa [flags, perm.length_eq] using lengths
  · have inside := slots.inside e (perm.subset mem)
    obtain ⟨p, memP, -, type⟩ := slots.types e (perm.subset mem)
    have bool : e.2.dataType = .bool := by rw [← type, (scalar p memP).2]
    rw [bool, sizes] at inside
    simp only [DataType.staticSize] at inside
    exact ⟨bool, by omega⟩


/-- Null in a byte is zero, and a property past the 65535th is not written. -/
theorem round_trip_not_literal :
    (¬ ∀ (xxh3_64 : Bytes → UInt64) (d : Database) (events : List Event) (c : NativeCollection)
      (writes : List (UInt32 × Written)) (count : Nat) (id : Int64) (index : UInt32),
      Run (Database.Step xxh3_64) Database.new events d → c ∈ d.collections →
        TypedAll d.collections (.object c) writes → (writes.map Prod.fst).Nodup →
        c.objectSize d.collections writes ≤ 2 ^ 24 → (index, .null) ∈ writes →
        ∃ insert r, c.writeObject d.collections count writes = some insert ∧
          c.reader id insert.object.finish = some r ∧ r.isNull index = some true) ∧
    ¬ ∀ (xxh3_64 : Bytes → UInt64) (d : Database) (events : List Event) (c : NativeCollection)
      (writes : List (UInt32 × Written)) (count : Nat) (id : Int64),
      Run (Database.Step xxh3_64) Database.new events d → c ∈ d.collections →
        (∀ e ∈ writes, ∃ p, (WriterImpl.object c).property e.1 = some p ∧
          Typed d.collections p e.2) → (writes.map Prod.fst).Nodup →
        c.objectSize d.collections writes ≤ 2 ^ 24 →
        ∃ insert, c.writeObject d.collections count writes = some insert ∧
          c.Restores d.collections id insert.object.finish writes := by
  constructor
  · intro all
    obtain ⟨s, run⟩ := levels_opened
    obtain ⟨insert, r, written, read, isNull⟩ := all _ _ _ levels [(1, .null)] 1 0 1 run
      (List.mem_singleton_self levels) ⟨⟨show 1 < 2 ^ 16 by decide, _, rfl, trivial⟩, trivial⟩
      (List.nodup_singleton _)
      (show levels.objectSize [levels] [(1, .null)] ≤ 2 ^ 24 by decide) (List.mem_singleton_self _)
    cases written
    cases read
    cases isNull
  · intro all
    obtain ⟨s, properties, run, length, bools⟩ := flags_opened 65536
    let c : NativeCollection := .new 0 "Flags" (some "id") properties [] (some "Flags")
    obtain ⟨⟨name, p⟩, last⟩ : ∃ e, properties[65535]? = some e :=
      ⟨_, List.getElem?_eq_getElem (by omega)⟩
    have bool : p.dataType = .bool := (bools _ (List.mem_of_getElem? last)).1
    have property : (WriterImpl.object c).property 65536 = some p :=
      WriterImpl.property_object.mpr ⟨by decide, name, last⟩
    have static_ : c.staticSize ≤ 65536 := staticSize_new fun e mem => by
      obtain ⟨type, offset⟩ := bools e mem
      rw [type]
      exact offset
    have size : c.objectSize [c] [(65536, .bool true)] ≤ 2 ^ 24 := by
      simp only [NativeCollection.objectSize, dynamicSizeAll, property, dynamicSize]
      omega
    obtain ⟨insert, -, r, read, -, reads, -⟩ := all _ _ _ c [(65536, .bool true)] 1 0 run
      (List.mem_singleton_self c) (by simpa using ⟨p, property, bool⟩) (List.nodup_singleton _) size
    obtain ⟨d, -, rfl⟩ := Option.map_eq_some_iff.mp read
    -- The 16 bits of the index are zero.
    obtain ⟨⟨q, found, -⟩, -⟩ := reads
    cases found

end IsarPlus.Native
