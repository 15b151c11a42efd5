import IsarPlus.Native.Evolution
import IsarPlus.Native.Proofs.ObjectLimit

/-!
# Reading objects of earlier versions

A property that has kept its type and its offset reads what an earlier version has written to it,
and a property whose slot lies behind the static section of an object is absent from it.
-/

namespace IsarPlus.Native
open ByteBuffer Scalar
open Sqlite (Written)

/-! ## Absent properties -/

section
variable {all : List NativeCollection}

open IsarDeserializer in
/-- A slot behind the static section is null in every type. -/
theorem Reader.absent_of_outside {id : Int64} {d : IsarDeserializer} {c : NativeCollection}
    {index : UInt32} {p : NativeProperty}
    (found : (Reader.object id d c).getProperty index = some p)
    (outside : d.containsOffset p.offset = false) : (Reader.object id d c).Absent all index := by
  have offset : d.getOffset p.offset = some none := by simp [getOffset, outside]
  have length : d.getOffsetLength p.offset = some none := by simp [getOffsetLength, offset]
  have nested : d.readNested p.offset = some none := by simp [readNested, offset]
  have dynamic : d.readDynamic p.offset = some none := by simp [readDynamic, length]
  have at_ {α : Type} {t : DataType} {null : α} {read : IsarDeserializer → Nat → Option α}
      (own : read d p.offset = some null) :
      (Reader.object id d c).readAt index t null read = some null := by
    by_cases type : p.dataType = t
    · rw [Reader.readAt_eq found type]
      exact own
    · simp [Reader.readAt, found, type]
  refine ⟨?_, at_ ?_, at_ ?_, at_ ?_, at_ ?_, at_ ?_, at_ ?_, ?_, at_ dynamic, ?_, ?_⟩
  · rw [Reader.isNull_eq found]
    show d.isNull p.offset p.dataType = _
    cases p.dataType with
    | bool => simp [IsarDeserializer.isNull, IsarDeserializer.readBool, outside]
    | byte => simp [IsarDeserializer.isNull, outside]
    | int => simp [IsarDeserializer.isNull, IsarDeserializer.readInt, outside]
    | float =>
      simp only [IsarDeserializer.isNull, IsarDeserializer.readFloat, outside]
      rfl
    | long => simp [IsarDeserializer.isNull, IsarDeserializer.readLong, outside]
    | double =>
      simp only [IsarDeserializer.isNull, IsarDeserializer.readDouble, outside]
      rfl
    | _ => simp [IsarDeserializer.isNull, length]
  · simp [IsarDeserializer.readBool, outside]
  · simp [IsarDeserializer.readByte, outside]
  · simp [IsarDeserializer.readInt, outside]
  · simp [IsarDeserializer.readFloat, outside]
  · simp [IsarDeserializer.readLong, outside]
  · simp [IsarDeserializer.readDouble, outside]
  · simp [Reader.readString, found, IsarDeserializer.readString, dynamic]
  · have nested : (Reader.object id d c).deserializer.readNested p.offset = some none := nested
    by_cases type : p.dataType = .object <;> simp [Reader.readObject, found, type, nested]
  · cases elements : p.dataType.elementType <;>
      simp [Reader.readList, found, elements, IsarDeserializer.readList, nested]

end

/-! ## Kept properties -/

section
variable {before after : List NativeCollection} {kept : String → String → Prop}

/-- A property with the type and the offset that it had, whose target is followed by the target that
it had. -/
structure Matches (before after : List NativeCollection)
    (follows : NativeCollection → NativeCollection → Prop) (p q : NativeProperty) : Prop where
  dataType : q.dataType = p.dataType
  offset : q.offset = p.offset
  target : ∀ old, p.embedded before = some old → ∃ new, q.embedded after = some new ∧
    follows old new

/-- What a relation between the earlier and the later versions of collections promises. -/
structure Follows (kept : String → String → Prop) (before after : List NativeCollection)
    (follows : NativeCollection → NativeCollection → Prop) : Prop where
  name : ∀ {old new}, follows old new → new.name = old.name
  old : ∀ {old new}, follows old new → old ∈ before
  keeps : ∀ {old new}, follows old new → ∀ {index name p},
    (WriterImpl.object old).property index = some p → old.Knows index name →
      kept old.name name → ∃ index' q, new.Knows index' name ∧
        new.getProperty index'.toUInt16 = some q ∧ Matches before after follows p q
  adds : ∀ {old new}, follows old new → ∀ {index name}, new.Knows index name →
    ¬ kept new.name name → ∃ q, new.getProperty index.toUInt16 = some q ∧
      old.staticSize ≤ q.offset

variable {follows : NativeCollection → NativeCollection → Prop} {b : Bytes}

theorem Follows.addedAbsent (h : Follows kept before after follows) {old new : NativeCollection}
    (later : follows old new) (base : Nat) :
    AddedAbsent kept after (sectionAt b base old.staticSize) new := by
  intro id index name knows lost
  obtain ⟨q, found, behind⟩ := h.adds later knows lost
  refine Reader.absent_of_outside found ?_
  exact decide_eq_false (Nat.not_lt.mpr behind)

/-- Neither an object nor a list. -/
def FlatValue : Written → Prop
  | .object _ => False
  | .list _ _ => False
  | _ => True

/-- A flat value that a kept property holds reads back. -/
theorem stillReads_flat (laid : ∀ c ∈ after, c.Laid) {base at_ n : Nat} {p q : NativeProperty}
    {r : Reader} {i : UInt32} (found : r.getProperty i = some q)
    (section_ : r.deserializer = sectionAt b base n) (sound : r.Sound)
    (slot : p.offset + p.dataType.staticSize ≤ n) (behind : base + n ≤ at_)
    (same : Matches before after follows p q) {v : Written} (flat : FlatValue v)
    (typed : Typed before p v) (fits : FitsAt before base at_ p v)
    (holds : Holds before b base at_ p v) : StillReads kept before after r i p v := by
  have slot' : q.offset + q.dataType.staticSize ≤ n := by
    rw [same.offset, same.dataType]
    exact slot
  have read (typed' : Typed after q v) (fits' : FitsAt after base at_ q v)
      (holds' : Holds after b base at_ q v) : r.ReadsBack after i p.dataType v := by
    have read := Holds.readsBack laid found section_ sound slot' behind typed' fits' holds'
    rwa [same.dataType] at read
  cases v with
  | null =>
    refine read trivial trivial ?_
    show At b (base + q.offset) (nullBytes q.dataType)
    rw [same.offset, same.dataType]
    exact holds
  | string value =>
    refine read (by rw [Typed, same.dataType]; exact typed) fits ?_
    show HoldsDynamic b base at_ q _
    rw [HoldsDynamic, same.offset]
    exact holds
  | byteList value =>
    refine read (same.dataType.trans typed) fits ?_
    show HoldsDynamic b base at_ q _
    rw [HoldsDynamic, same.offset]
    exact holds
  | bool _ | byte _ | int _ | float _ | long _ | double _ =>
    refine read (same.dataType.trans typed) trivial ?_
    rw [Holds, same.offset]
    exact holds
  | object _ => cases flat
  | list _ _ => cases flat

/-- An element of a list is matched by the element of the same index. -/
theorem Matches.element {p q : NativeProperty} (same : Matches before after follows p q)
    (t : DataType) (offset : Nat) :
    Matches before after follows ⟨t, offset, p.embeddedCollectionIndex⟩
      ⟨t, offset, q.embeddedCollectionIndex⟩ :=
  ⟨rfl, rfl, same.target⟩

mutual

theorem Holds.stillReads (earlier : ∀ c ∈ before, c.Laid) (later : ∀ c ∈ after, c.Laid)
    (h : Follows kept before after follows) {base at_ n : Nat} {p q : NativeProperty} {r : Reader}
    {i : UInt32} (found : r.getProperty i = some q) (section_ : r.deserializer = sectionAt b base n)
    (sound : r.Sound) (slot : p.offset + p.dataType.staticSize ≤ n) (behind : base + n ≤ at_)
    (same : Matches before after follows p q) :
    ∀ {v : Written}, Typed before p v → FitsAt before base at_ p v → Holds before b base at_ p v →
      StillReads kept before after r i p v
  | .object writes, typed, fits, holds => by
    obtain ⟨type, -, old, target, fields⟩ := typed
    obtain ⟨new, target', follow⟩ := same.target old target
    have size : p.dataType.staticSize = 3 := by rw [type]; rfl
    have laidOld := WriterImpl.laid_object (earlier old (h.old follow))
    simp only [Holds, target] at holds
    simp only [FitsAt, target] at fits
    obtain ⟨⟨offset, header, inside, zero⟩, inner⟩ := holds
    rw [← same.offset] at offset slot
    rw [← same.dataType] at type size slot
    have start : base + (at_ - base) = at_ := by omega
    have opened := IsarDeserializer.readNested_slot (n := n) offset fits.1 (by omega) (by omega)
      (by rwa [start])
      fits.2.1
    rw [start, ← section_] at opened
    refine ⟨isNull_behind found section_ offset fits.1 slot behind size header fits.2.1,
      old, new, _, _, target, Reader.readObject_eq found type target' opened, h.name follow, ?_,
      h.addedAbsent follow (at_ + 3)⟩
    exact inner.fieldsStillRead earlier later h follow Int64.minValue le_rfl fields fits.2.2
  | .list length writes, typed, fits, holds => by
    obtain ⟨complete, t, elements, fields⟩ := typed
    have size := staticSize_of_elementType elements
    simp only [Holds, elements] at holds
    simp only [FitsAt, elements] at fits
    obtain ⟨⟨offset, header, inside, zero⟩, inner⟩ := holds
    have elements' : q.dataType.elementType = some t := by rw [same.dataType, elements]
    rw [← same.offset] at offset slot
    rw [← same.dataType] at size slot
    have start : base + (at_ - base) = at_ := by omega
    have opened := IsarDeserializer.readList_slot (n := n) offset fits.1 (by omega) (by omega)
      (by rwa [start])
      fits.2.1
    rw [start, ← section_] at opened
    refine ⟨isNull_behind found section_ offset fits.1 slot behind size header fits.2.1,
      t, _, elements, Reader.readList_eq found sound elements' opened, ?_⟩
    exact inner.elementsStillRead earlier later h same (lt_trans fits.2.1 (by decide)) elements'
      le_rfl fields fits.2.2
  | .null, typed, fits, holds =>
    stillReads_flat later found section_ sound slot behind same trivial typed fits holds
  | .bool _, typed, fits, holds =>
    stillReads_flat later found section_ sound slot behind same trivial typed fits holds
  | .byte _, typed, fits, holds =>
    stillReads_flat later found section_ sound slot behind same trivial typed fits holds
  | .int _, typed, fits, holds =>
    stillReads_flat later found section_ sound slot behind same trivial typed fits holds
  | .float _, typed, fits, holds =>
    stillReads_flat later found section_ sound slot behind same trivial typed fits holds
  | .long _, typed, fits, holds =>
    stillReads_flat later found section_ sound slot behind same trivial typed fits holds
  | .double _, typed, fits, holds =>
    stillReads_flat later found section_ sound slot behind same trivial typed fits holds
  | .string _, typed, fits, holds =>
    stillReads_flat later found section_ sound slot behind same trivial typed fits holds
  | .byteList _, typed, fits, holds =>
    stillReads_flat later found section_ sound slot behind same trivial typed fits holds

theorem HoldsAll.fieldsStillRead (earlier : ∀ c ∈ before, c.Laid) (later : ∀ c ∈ after, c.Laid)
    (h : Follows kept before after follows) {base : Nat} {old new : NativeCollection}
    (follow : follows old new) (id : Int64) :
    ∀ {writes : List (UInt32 × Written)} {at_ : Nat}, base + old.staticSize ≤ at_ →
      TypedAll before (.object old) writes → FitsAll before base at_ (.object old) writes →
      HoldsAll before b base at_ (.object old) writes →
      FieldsStillRead kept before after old new (.object id (sectionAt b base old.staticSize) new)
        writes
  | [], _, _, _, _, _ => trivial
  | (i, v) :: writes, at_, behind, typed, fits, holds => by
    obtain ⟨⟨addressed, p, found, typed⟩, fields⟩ := typed
    simp only [HoldsAll, found] at holds
    simp only [FitsAll, found] at fits
    refine ⟨fun name knows own => ?_, ?_⟩
    · obtain ⟨i', q, knows', property, same⟩ := h.keeps follow found knows own
      have inside := (WriterImpl.laid_object (earlier old (h.old follow))).inside i p found
      have property : (Reader.object id (sectionAt b base old.staticSize) new).getProperty i' =
          some q := property
      refine ⟨i', p, knows', found, ?_⟩
      exact holds.1.stillReads earlier later h property rfl trivial inside behind same typed fits.1
    · exact holds.2.fieldsStillRead earlier later h follow id (by omega) fields fits.2

theorem HoldsAll.elementsStillRead (earlier : ∀ c ∈ before, c.Laid) (later : ∀ c ∈ after, c.Laid)
    (h : Follows kept before after follows) {base : Nat} {p q : NativeProperty}
    (same : Matches before after follows p q) {t : DataType} {length : UInt32}
    (small : length.toNat * t.staticSize < 2 ^ 32)
    (elements : q.dataType.elementType = some t) :
    ∀ {writes : List (UInt32 × Written)} {at_ : Nat},
      base + (WriterImpl.list t p.embeddedCollectionIndex length).staticSize ≤ at_ →
      TypedAll before (.list t p.embeddedCollectionIndex length) writes →
      FitsAll before base at_ (.list t p.embeddedCollectionIndex length) writes →
      HoldsAll before b base at_ (.list t p.embeddedCollectionIndex length) writes →
      ElementsStillRead kept before after (.list t p.embeddedCollectionIndex length)
        (.list (sectionAt b base (length.toNat * t.staticSize)) t q.embeddedCollectionIndex) writes
  | [], _, _, _, _, _ => trivial
  | (i, v) :: writes, at_, behind, typed, fits, holds => by
    obtain ⟨⟨addressed, e, found, typed⟩, fields⟩ := typed
    simp only [HoldsAll, found] at holds
    simp only [FitsAll, found] at fits
    have inside := (WriterImpl.laid_list t p.embeddedCollectionIndex length).inside i e found
    obtain ⟨below, rfl⟩ := WriterImpl.property_list.mp found
    have property := getProperty_reader (w := .list t q.embeddedCollectionIndex length) 0
      (sectionAt b base (length.toNat * t.staticSize)) (WriterImpl.exact_list small) trivial
      (WriterImpl.property_list.mpr ⟨below, rfl⟩)
    refine ⟨⟨_, found, ?_⟩, ?_⟩
    · exact holds.1.stillReads earlier later h property rfl (Reader.sound_list elements) inside
        behind (same.element t _) typed fits.1
    · exact holds.2.elementsStillRead earlier later h same small elements (by omega) fields fits.2

end

/-- What a later version reads of an object that an earlier one has written. -/
theorem NativeCollection.Encodes.stillReads (earlier : ∀ c ∈ before, c.Laid)
    (later : ∀ c ∈ after, c.Laid) (h : Follows kept before after follows)
    {old new : NativeCollection} (follow : follows old new) {id : Int64}
    {writes : List (UInt32 × Written)} {object : Bytes}
    (typed : TypedAll before (.object old) writes) (fits : old.ObjectFits before writes)
    (encodes : old.Encodes before writes object) :
    ∃ d, new.reader id object = some (.object id d new) ∧
      FieldsStillRead kept before after old new (.object id d new) writes ∧
      AddedAbsent kept after d new := by
  refine ⟨sectionAt object 3 old.staticSize, ?_, ?_, h.addedAbsent follow 3⟩
  · rw [NativeCollection.reader, encodes.fromBytes fits.1]
    rfl
  · exact encodes.holds.fieldsStillRead earlier later h follow id le_rfl typed fits.2

end

end IsarPlus.Native
