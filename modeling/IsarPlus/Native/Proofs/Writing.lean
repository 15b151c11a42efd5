import IsarPlus.Native.Layout
import IsarPlus.Native.Proofs.Serializer

/-!
# What the writers leave in the buffer

A write of a value that fits appends its dynamic bytes, fills its slot and changes nothing else; a
write of a value that does not fit panics.
-/

namespace IsarPlus.Native
open ByteBuffer Scalar
open Sqlite (Written)

/-! ## Slots -/

namespace WriterImpl

/-- The slots of a section lie in it, apart from each other. -/
structure Laid (w : WriterImpl) : Prop where
  inside : ∀ i p, w.property i = some p → p.offset + p.dataType.staticSize ≤ w.staticSize
  apart : ∀ i j p q, i ≠ j → w.property i = some p → w.property j = some q →
    p.offset + p.dataType.staticSize ≤ q.offset ∨ q.offset + q.dataType.staticSize ≤ p.offset

theorem property_object {c : NativeCollection} {i : UInt32} {p : NativeProperty} :
    (object c).property i = some p ↔
      i ≠ 0 ∧ ∃ name, c.properties[i.toNat - 1]? = some (name, p) := by
  by_cases zero : i = 0
  · simp [property, zero]
  · simp only [property, if_neg zero, Option.map_eq_some_iff]
    constructor
    · rintro ⟨⟨name, q⟩, found, rfl⟩
      exact ⟨zero, name, found⟩
    · rintro ⟨-, name, found⟩
      exact ⟨(name, p), found, rfl⟩

theorem laid_object {c : NativeCollection} (laid : c.Laid) : (object c).Laid where
  inside := by
    intro i p found
    obtain ⟨-, name, found⟩ := property_object.mp found
    exact laid.inside (name, p) (List.mem_of_getElem? found)
  apart := by
    intro i j p q ne foundI foundJ
    obtain ⟨posI, nameI, foundI⟩ := property_object.mp foundI
    obtain ⟨posJ, nameJ, foundJ⟩ := property_object.mp foundJ
    have neI : i.toNat ≠ 0 := fun eq => posI (UInt32.toNat_inj.mp eq)
    have neJ : j.toNat ≠ 0 := fun eq => posJ (UInt32.toNat_inj.mp eq)
    have neIJ : i.toNat ≠ j.toNat := fun eq => ne (UInt32.toNat_inj.mp eq)
    have pairs := List.pairwise_iff_getElem.mp laid.apart
    obtain ⟨ltI, eqI⟩ := List.getElem?_eq_some_iff.mp foundI
    obtain ⟨ltJ, eqJ⟩ := List.getElem?_eq_some_iff.mp foundJ
    rcases Nat.lt_or_gt_of_ne neIJ with lt | lt
    · have := pairs _ _ ltI ltJ (by omega)
      rwa [eqI, eqJ] at this
    · have := pairs _ _ ltJ ltI (by omega)
      rw [eqI, eqJ] at this
      exact this.symm

theorem property_list {t : DataType} {e : Option UInt16} {n i : UInt32} {p : NativeProperty} :
    (list t e n).property i = some p ↔ i < n ∧ p = ⟨t, i.toNat * t.staticSize, e⟩ := by
  by_cases below : i < n
  · simp [property, below, eq_comm]
  · simp [property, below]

theorem laid_list (t : DataType) (e : Option UInt16) (n : UInt32) : (list t e n).Laid where
  inside := by
    intro i p found
    obtain ⟨below, rfl⟩ := property_list.mp found
    have lt : i.toNat + 1 ≤ n.toNat := UInt32.lt_iff_toNat_lt.mp below
    calc i.toNat * t.staticSize + t.staticSize = (i.toNat + 1) * t.staticSize := by
          rw [Nat.succ_mul]
      _ ≤ n.toNat * t.staticSize := Nat.mul_le_mul_right _ lt
  apart := by
    intro i j p q ne foundI foundJ
    obtain ⟨-, rfl⟩ := property_list.mp foundI
    obtain ⟨-, rfl⟩ := property_list.mp foundJ
    have step {m k : Nat} (lt : m < k) : m * t.staticSize + t.staticSize ≤ k * t.staticSize := by
      rw [← Nat.succ_mul]
      exact Nat.mul_le_mul_right _ lt
    rcases Nat.lt_or_gt_of_ne (fun eq => ne (UInt32.toNat_inj.mp eq)) with lt | lt
    · exact Or.inl (step lt)
    · exact Or.inr (step lt)

/-- The writer finds the property that an index means. -/
def Exact (w : WriterImpl) : Prop :=
  ∀ i p, w.Addresses i → w.property i = some p → w.getProperty i = some p

theorem exact_object (c : NativeCollection) : (object c).Exact := by
  intro i p addressed found
  obtain ⟨positive, name, found⟩ := property_object.mp found
  have ne : i.toNat ≠ 0 := fun eq => positive (UInt32.toNat_inj.mp eq)
  have same : i.toUInt16.toNat = i.toNat := by
    rw [UInt32.toNat_toUInt16, Nat.mod_eq_of_lt addressed]
  have nonzero : i.toUInt16 ≠ 0 := by
    intro eq
    rw [eq] at same
    exact ne same.symm
  simp only [getProperty, NativeCollection.getProperty, if_pos nonzero, same, found, Option.map_some]

theorem exact_list {t : DataType} {e : Option UInt16} {n : UInt32}
    (small : n.toNat * t.staticSize < 2 ^ 32) : (list t e n).Exact := by
  intro i p _ found
  obtain ⟨below, rfl⟩ := property_list.mp found
  have lt : i.toNat < n.toNat := UInt32.lt_iff_toNat_lt.mp below
  have product : i.toNat * t.staticSize < 2 ^ 32 :=
    lt_of_le_of_lt (Nat.mul_le_mul_right _ (Nat.le_of_lt lt)) small
  have size : (UInt32.ofNat t.staticSize).toNat = t.staticSize := by
    cases t <;> rfl
  simp only [getProperty, if_pos below, UInt32.toNat_mul, size, Nat.mod_eq_of_lt product]

end WriterImpl

/-! ## Bytes that stay -/

theorem length_nullBytes (t : DataType) : (nullBytes t).length = t.staticSize := by
  cases t <;> rfl

section
variable {all : List NativeCollection} {b b' : Bytes}

theorem HoldsDynamic.congr {base at_ : Nat} {p : NativeProperty} {value : Bytes}
    (h : HoldsDynamic b base at_ p value) (size : p.dataType.staticSize = 3)
    (slot : AgreeOn b b' (base + p.offset) (base + p.offset + p.dataType.staticSize))
    (data : AgreeOn b b' at_ (at_ + (3 + value.length))) (grown : b.length ≤ b'.length) :
    HoldsDynamic b' base at_ p value := by
  obtain ⟨offset, header, bytes⟩ := h
  have boundOffset := offset.bound
  have boundHeader := header.bound
  have boundBytes := bytes.bound
  rw [length_leBytes] at boundOffset boundHeader
  refine ⟨?_, ?_, ?_⟩
  · exact offset.congr (by rwa [length_leBytes, ← size]) (by rw [length_leBytes]; omega)
  · exact header.congr (data.mono le_rfl (by rw [length_leBytes]; omega))
      (by rw [length_leBytes]; omega)
  · exact bytes.congr (data.mono (by omega) (by omega)) (by omega)

theorem HoldsNested.congr {base at_ : Nat} {p : NativeProperty} {w : WriterImpl}
    {indexes : List UInt32} (h : HoldsNested b base at_ p w indexes) (laid : w.Laid)
    (size : p.dataType.staticSize = 3)
    (slot : AgreeOn b b' (base + p.offset) (base + p.offset + p.dataType.staticSize))
    (data : AgreeOn b b' at_ (at_ + (3 + w.staticSize))) (grown : b.length ≤ b'.length) :
    HoldsNested b' base at_ p w indexes := by
  obtain ⟨offset, header, inside, zero⟩ := h
  have boundOffset := offset.bound
  have boundHeader := header.bound
  rw [length_leBytes] at boundOffset boundHeader
  refine ⟨?_, ?_, by omega, ?_⟩
  · exact offset.congr (by rwa [length_leBytes, ← size]) (by rw [length_leBytes]; omega)
  · exact header.congr (data.mono le_rfl (by rw [length_leBytes]; omega))
      (by rw [length_leBytes]; omega)
  · intro index q absent found
    have bound := laid.inside index q found
    have stands := zero index q absent found
    have boundZero := stands.bound
    rw [List.length_replicate] at boundZero
    exact stands.congr (data.mono (by omega) (by rw [List.length_replicate]; omega))
      (by rw [List.length_replicate]; omega)

/-- A slot that keeps its bytes. -/
theorem at_slot_congr {base : Nat} {p : NativeProperty} {bs : Bytes}
    (h : At b (base + p.offset) bs) (size : bs.length = p.dataType.staticSize)
    (slot : AgreeOn b b' (base + p.offset) (base + p.offset + p.dataType.staticSize))
    (grown : b.length ≤ b'.length) : At b' (base + p.offset) bs :=
  h.congr (by rwa [size]) (by have := h.bound; omega)

theorem staticSize_of_elementType {t e : DataType} (h : t.elementType = some e) :
    t.staticSize = 3 := by
  cases t <;> first
    | rfl
    | cases h

theorem mem_of_embedded {p : NativeProperty} {c : NativeCollection}
    (h : p.embedded all = some c) : c ∈ all := by
  obtain ⟨index, -, found⟩ := Option.bind_eq_some_iff.mp h
  exact List.mem_of_getElem? found

mutual

/-- A value stands in every buffer that agrees on its slot and on its dynamic bytes. -/
theorem Holds.congr (laid : ∀ c ∈ all, c.Laid) {base at_ : Nat} {p : NativeProperty} :
    ∀ {v : Written}, Holds all b base at_ p v → Typed all p v →
      AgreeOn b b' (base + p.offset) (base + p.offset + p.dataType.staticSize) →
      AgreeOn b b' at_ (at_ + dynamicSize all p v) → b.length ≤ b'.length →
      Holds all b' base at_ p v
  | .null, h, _, slot, _, grown => at_slot_congr h (length_nullBytes _) slot grown
  | .bool value, h, typed, slot, _, grown => by
    have size : p.dataType = .bool := typed
    exact at_slot_congr h (by rw [size]; rfl) slot grown
  | .byte value, h, typed, slot, _, grown => by
    have size : p.dataType = .byte := typed
    exact at_slot_congr h (by rw [size]; rfl) slot grown
  | .int value, h, typed, slot, _, grown => by
    have size : p.dataType = .int := typed
    exact at_slot_congr h (by rw [size, length_i32Le]; rfl) slot grown
  | .float value, h, typed, slot, _, grown => by
    have size : p.dataType = .float := typed
    exact at_slot_congr h (by rw [size, length_f32Le]; rfl) slot grown
  | .long value, h, typed, slot, _, grown => by
    have size : p.dataType = .long := typed
    exact at_slot_congr h (by rw [size, length_i64Le]; rfl) slot grown
  | .double value, h, typed, slot, _, grown => by
    have size : p.dataType = .double := typed
    exact at_slot_congr h (by rw [size, length_f64Le]; rfl) slot grown
  | .string value, h, typed, slot, data, grown => by
    have size : p.dataType.staticSize = 3 := by
      rcases typed with eq | eq <;> rw [eq] <;> rfl
    exact HoldsDynamic.congr h size slot data grown
  | .byteList value, h, typed, slot, data, grown => by
    have size : p.dataType = .byteList := typed
    exact HoldsDynamic.congr h (by rw [size]; rfl) slot data grown
  | .object writes, h, typed, slot, data, grown => by
    obtain ⟨size, -, c, target, fields⟩ := typed
    have laidC := laid c (mem_of_embedded target)
    simp only [Holds, target] at h ⊢
    simp only [dynamicSize, target] at data
    obtain ⟨nested, inner⟩ := h
    refine ⟨nested.congr (WriterImpl.laid_object laidC) (by rw [size]; rfl) slot
      (data.mono le_rfl (by simp only [WriterImpl.staticSize]; omega)) grown, ?_⟩
    exact inner.congr laid (WriterImpl.laid_object laidC) fields
      (data.mono (by omega) (by simp only [WriterImpl.staticSize]; omega))
      (data.mono (by omega) (by omega)) grown
  | .list length writes, h, typed, slot, data, grown => by
    obtain ⟨-, t, elements, fields⟩ := typed
    have size := staticSize_of_elementType elements
    simp only [Holds, elements] at h ⊢
    simp only [dynamicSize, elements] at data
    obtain ⟨nested, inner⟩ := h
    refine ⟨nested.congr (WriterImpl.laid_list _ _ _) size slot
      (data.mono le_rfl (by simp only [WriterImpl.staticSize]; omega)) grown, ?_⟩
    exact inner.congr laid (WriterImpl.laid_list _ _ _) fields
      (data.mono (by omega) (by simp only [WriterImpl.staticSize]; omega))
      (data.mono (by omega) (by omega)) grown

theorem HoldsAll.congr (laid : ∀ c ∈ all, c.Laid) {base at_ : Nat} {w : WriterImpl}
    (laidW : w.Laid) :
    ∀ {writes : List (UInt32 × Written)}, HoldsAll all b base at_ w writes →
      TypedAll all w writes → AgreeOn b b' base (base + w.staticSize) →
      AgreeOn b b' at_ (at_ + dynamicSizeAll all w writes) → b.length ≤ b'.length →
      HoldsAll all b' base at_ w writes
  | [], _, _, _, _, _ => trivial
  | (index, value) :: writes, h, typed, slots, data, grown => by
    obtain ⟨⟨addressed, p, found, typed⟩, fields⟩ := typed
    have inside := laidW.inside index p found
    simp only [HoldsAll, found] at h ⊢
    simp only [dynamicSizeAll, found] at data
    refine ⟨?_, ?_⟩
    · exact h.1.congr laid typed (slots.mono (by omega) (by omega))
        (data.mono le_rfl (by omega)) grown
    · exact h.2.congr laid laidW fields slots (data.mono (by omega) (by omega)) grown

end

/-! ## Writes that fit -/

open IsarSerializer

/-- What a write of a value does to a serializer. -/
structure Writes (all : List NativeCollection) (s s' : IsarSerializer) (p : NativeProperty)
    (v : Written) : Prop where
  wrote : Wrote s s' (s.offset + p.offset) (s.offset + p.offset + p.dataType.staticSize)
    (dynamicSize all p v)
  holds : Holds all s'.buffer s.offset s.buffer.length p v

theorem getOffset_of_property {w : WriterImpl} {i : UInt32} {p : NativeProperty}
    (found : w.getProperty i = some p) : w.getOffset i p.dataType = some p.offset := by
  simp [WriterImpl.getOffset, found]

/-- A value that stands in its slot. -/
theorem writes_slot {s : IsarSerializer} {p : NativeProperty} {v : Written} {bs : Bytes}
    (open_ : s.Open) (slot : p.offset + p.dataType.staticSize ≤ s.staticSize)
    (size : bs.length = p.dataType.staticSize) (flat : dynamicSize all p v = 0)
    (holds : ∀ b base at_, At b (base + p.offset) bs → Holds all b base at_ p v) :
    ∃ s', s.writeStaticChecked p.offset bs = some s' ∧ Writes all s s' p v := by
  obtain ⟨s', eq, wrote, stands⟩ := writeStaticChecked_spec open_ (by rwa [size])
  refine ⟨s', eq, ?_, holds _ _ _ stands⟩
  rwa [flat, ← size]

/-- `write_null` fills the slot of every type. -/
theorem writeNull_eq (s : IsarSerializer) (offset : Nat) (t : DataType) :
    s.writeNull offset t = s.writeStaticChecked offset (nullBytes t) := by
  cases t <;> rfl

theorem writes_dynamic {s : IsarSerializer} {p : NativeProperty} {v : Written} {bs : Bytes}
    (open_ : s.Open) (slot : p.offset + p.dataType.staticSize ≤ s.staticSize)
    (size : p.dataType.staticSize = 3) (near : s.buffer.length - s.offset < 2 ^ 24)
    (small : bs.length < 2 ^ 24) (dynamic : dynamicSize all p v = 3 + bs.length)
    (holds : ∀ b base at_, HoldsDynamic b base at_ p bs → Holds all b base at_ p v) :
    ∃ s', s.writeDynamic p.offset bs = some s' ∧ Writes all s s' p v := by
  obtain ⟨s', eq, wrote, offset, header, bytes⟩ :=
    writeDynamic_spec open_ (by rwa [size] at slot) near small
  refine ⟨s', eq, ?_, holds _ _ _ ⟨offset, header, bytes⟩⟩
  rwa [dynamic, size]

/-- What the writes of a whole section do to its serializer. -/
structure WritesAll (all : List NativeCollection) (s s' : IsarSerializer) (w : WriterImpl)
    (writes : List (UInt32 × Written)) : Prop where
  wrote : Wrote s s' s.offset (s.offset + w.staticSize) (dynamicSizeAll all w writes)
  holds : HoldsAll all s'.buffer s.offset s.buffer.length w writes
  others : ∀ j q, j ∉ writes.map Prod.fst → w.property j = some q →
    AgreeOn s.buffer s'.buffer (s.offset + q.offset) (s.offset + q.offset + q.dataType.staticSize)

/-- A nested section that is written between its begin and its end. -/
theorem writes_nested {s : IsarSerializer} {p : NativeProperty} {w : WriterImpl}
    {writes : List (UInt32 × Written)} (open_ : s.Open) (laidW : w.Laid)
    (slot : p.offset + p.dataType.staticSize ≤ s.staticSize) (size : p.dataType.staticSize = 3)
    (near : s.buffer.length - s.offset < 2 ^ 24) (small : w.staticSize < 2 ^ 24)
    (inner : ∀ nested : IsarSerializer, nested.Open → nested.offset = s.buffer.length + 3 →
      nested.staticSize = w.staticSize →
      nested.buffer.length = s.buffer.length + 3 + w.staticSize →
      ∃ nested', w.writeAll all nested writes = some nested' ∧
        WritesAll all nested nested' w writes) :
    ∃ nested nested', s.beginNested p.offset w.staticSize = some ({ s with buffer := [] }, nested) ∧
      w.writeAll all nested writes = some nested' ∧
      Wrote s (endNested { s with buffer := [] } nested') (s.offset + p.offset)
        (s.offset + p.offset + p.dataType.staticSize)
        (3 + w.staticSize + dynamicSizeAll all w writes) ∧
      HoldsNested nested'.buffer s.offset s.buffer.length p w (writes.map Prod.fst) ∧
      HoldsAll all nested'.buffer (s.buffer.length + 3) (s.buffer.length + 3 + w.staticSize) w
        writes := by
  have below : s.offset + p.offset + 3 ≤ s.buffer.length := by
    unfold Open at open_
    omega
  obtain ⟨nested, begun, wrote, start, static_, offset, header, zeros⟩ :=
    beginNested_spec open_ (by rwa [size] at slot) near small
  obtain ⟨openNested, len⟩ := open_nested wrote start static_
  obtain ⟨nested', written, did⟩ := inner nested openNested start static_ len
  have lenAfter := did.wrote.length
  -- The nested serializer touches nothing in front of its own static section.
  have inside : Wrote { s with buffer := nested.buffer } (endNested { s with buffer := [] } nested')
      (s.buffer.length + 3) (s.buffer.length + 3 + w.staticSize) (dynamicSizeAll all w writes) := by
    have whole := did.wrote
    rw [start] at whole
    exact ⟨rfl, rfl, whole.length, whole.before, whole.after⟩
  refine ⟨nested, nested', begun, written, ?_, ?_, ?_⟩
  · rw [size]
    exact wrote.append inside (by omega) (by omega)
  · refine ⟨inside.keeps offset (Or.inl (by rw [length_leBytes]; omega)),
      inside.keeps header (Or.inl (by rw [length_leBytes])), by omega, ?_⟩
    intro index q absent found
    have bound := laidW.inside index q found
    have zero : At nested.buffer (s.buffer.length + 3 + q.offset)
        (List.replicate q.dataType.staticSize 0) := at_replicate_of_at zeros bound
    have untouched := did.others index q absent found
    rw [start] at untouched
    exact zero.congr (by rwa [List.length_replicate]) (by rw [List.length_replicate]; omega)
  · have holds := did.holds
    rwa [start, len] at holds

theorem beginObject_eq {w : WriterImpl} {s outer nested : IsarSerializer} {i : UInt32}
    {p : NativeProperty} {c : NativeCollection} (found : w.getProperty i = some p)
    (type : p.dataType = .object) (target : p.embedded all = some c)
    (begun : s.beginNested p.offset c.staticSize = some (outer, nested)) :
    w.beginObject all s i = some (some (.object c, outer, nested)) := by
  obtain ⟨k, index, collection⟩ := Option.bind_eq_some_iff.mp target
  simp [WriterImpl.beginObject, found, type, index, collection, begun]

/-- The static size of a list in `u32`. -/
theorem listSize_toNat {t : DataType} {length : UInt32}
    (small : length.toNat * t.staticSize < 2 ^ 32) :
    (UInt32.ofNat t.staticSize * length).toNat = length.toNat * t.staticSize := by
  have size : (UInt32.ofNat t.staticSize).toNat = t.staticSize := by
    cases t <;> rfl
  rw [UInt32.toNat_mul, size, Nat.mul_comm, Nat.mod_eq_of_lt small]

theorem beginList_eq {w : WriterImpl} {s outer nested : IsarSerializer} {i length : UInt32}
    {p : NativeProperty} {t : DataType} (found : w.getProperty i = some p)
    (elements : p.dataType.elementType = some t)
    (begun : s.beginNested p.offset (UInt32.ofNat t.staticSize * length).toNat =
      some (outer, nested)) :
    w.beginList s i length =
      some (outer, some (.list t p.embeddedCollectionIndex length, nested)) := by
  simp only [WriterImpl.beginList, found, elements, begun, Option.bind_eq_bind, Option.bind_some,
    Option.pure_def]

mutual

theorem write_spec (laid : ∀ c ∈ all, c.Laid) 
    {w : WriterImpl} {s : IsarSerializer} {i : UInt32} {p : NativeProperty}
    (found : w.getProperty i = some p) (open_ : s.Open)
    (slot : p.offset + p.dataType.staticSize ≤ s.staticSize) :
    ∀ {v : Written}, Typed all p v → FitsAt all s.offset s.buffer.length p v →
      ∃ s', w.write all s i v = some s' ∧ Writes all s s' p v
  | .null, _, _ => by
    simp only [WriterImpl.write, WriterImpl.writeNull, found, writeNull_eq]
    exact writes_slot open_ slot (length_nullBytes _) rfl fun _ _ _ stands => stands
  | .bool value, typed, _ => by
    have type : p.dataType = .bool := typed
    have size : p.dataType.staticSize = 1 := by rw [type]; rfl
    simp only [WriterImpl.write, WriterImpl.writeBool, WriterImpl.writeAt, ← type,
      getOffset_of_property found]
    exact writes_slot open_ slot size.symm rfl fun _ _ _ stands => stands
  | .byte value, typed, _ => by
    have type : p.dataType = .byte := typed
    have size : p.dataType.staticSize = 1 := by rw [type]; rfl
    simp only [WriterImpl.write, WriterImpl.writeByte, WriterImpl.writeAt, ← type,
      getOffset_of_property found]
    exact writes_slot open_ slot size.symm rfl fun _ _ _ stands => stands
  | .int value, typed, _ => by
    have type : p.dataType = .int := typed
    have size : p.dataType.staticSize = 4 := by rw [type]; rfl
    simp only [WriterImpl.write, WriterImpl.writeInt, WriterImpl.writeAt, ← type,
      getOffset_of_property found]
    exact writes_slot open_ slot ((length_i32Le value).trans size.symm) rfl fun _ _ _ stands => stands
  | .float value, typed, _ => by
    have type : p.dataType = .float := typed
    have size : p.dataType.staticSize = 4 := by rw [type]; rfl
    simp only [WriterImpl.write, WriterImpl.writeFloat, WriterImpl.writeAt, ← type,
      getOffset_of_property found]
    exact writes_slot open_ slot ((length_f32Le value).trans size.symm) rfl fun _ _ _ stands => stands
  | .long value, typed, _ => by
    have type : p.dataType = .long := typed
    have size : p.dataType.staticSize = 8 := by rw [type]; rfl
    simp only [WriterImpl.write, WriterImpl.writeLong, WriterImpl.writeAt, ← type,
      getOffset_of_property found]
    exact writes_slot open_ slot ((length_i64Le value).trans size.symm) rfl fun _ _ _ stands => stands
  | .double value, typed, _ => by
    have type : p.dataType = .double := typed
    have size : p.dataType.staticSize = 8 := by rw [type]; rfl
    simp only [WriterImpl.write, WriterImpl.writeDouble, WriterImpl.writeAt, ← type,
      getOffset_of_property found]
    exact writes_slot open_ slot ((length_f64Le value).trans size.symm) rfl fun _ _ _ stands => stands
  | .string value, typed, fits => by
    have size : p.dataType.staticSize = 3 := by
      rcases typed with eq | eq <;> rw [eq] <;> rfl
    simp only [WriterImpl.write, WriterImpl.writeString, found, if_pos (show _ ∨ _ from typed)]
    exact writes_dynamic open_ slot size fits.1 fits.2 rfl fun _ _ _ stands => stands
  | .byteList value, typed, fits => by
    have type : p.dataType = .byteList := typed
    have size : p.dataType.staticSize = 3 := by rw [type]; rfl
    simp only [WriterImpl.write, WriterImpl.writeByteList, WriterImpl.writeAt, ← type,
      getOffset_of_property found]
    exact writes_dynamic open_ slot size fits.1 fits.2 rfl fun _ _ _ stands => stands
  | .object writes, typed, fits => by
    obtain ⟨type, nodup, c, target, fields⟩ := typed
    have size : p.dataType.staticSize = 3 := by rw [type]; rfl
    have mem := mem_of_embedded target
    simp only [FitsAt, target] at fits
    obtain ⟨nested, nested', begun, written, wrote, section_, inner⟩ :=
      writes_nested (w := .object c) open_ (WriterImpl.laid_object (laid c mem)) slot size fits.1
        fits.2.1 fun nested openN start static_ len =>
          writeAll_spec laid (WriterImpl.exact_object c)
            (WriterImpl.laid_object (laid c mem)) openN static_ fields nodup
            (by rw [start, len]; exact fits.2.2)
    refine ⟨endNested { s with buffer := [] } nested', ?_, ?_, ?_⟩
    · simp only [WriterImpl.write, beginObject_eq found type target begun, written, Option.map_some]
    · simpa only [dynamicSize, target, WriterImpl.staticSize] using wrote
    · simp only [Holds, target]
      exact ⟨section_, inner⟩
  | .list length writes, typed, fits => by
    obtain ⟨complete, t, elements, fields⟩ := typed
    have size := staticSize_of_elementType elements
    simp only [FitsAt, elements] at fits
    have small : length.toNat * t.staticSize < 2 ^ 32 := lt_trans fits.2.1 (by decide)
    obtain ⟨nested, nested', begun, written, wrote, section_, inner⟩ :=
      writes_nested (w := .list t p.embeddedCollectionIndex length) open_
        (WriterImpl.laid_list _ _ _) slot size fits.1 fits.2.1 fun nested openN start static_ len =>
          writeAll_spec laid (WriterImpl.exact_list small) (WriterImpl.laid_list _ _ _) openN
            static_ fields complete.1 (by rw [start, len]; exact fits.2.2)
    refine ⟨endNested { s with buffer := [] } nested', ?_, ?_, ?_⟩
    · have begunList : s.beginNested p.offset (UInt32.ofNat t.staticSize * length).toNat =
          some ({ s with buffer := [] }, nested) := by
        rw [listSize_toNat small]
        exact begun
      simp only [WriterImpl.write, beginList_eq found elements begunList, written, Option.map_some]
    · simpa only [dynamicSize, elements, WriterImpl.staticSize] using wrote
    · simp only [Holds, elements]
      exact ⟨section_, inner⟩

theorem writeAll_spec (laid : ∀ c ∈ all, c.Laid) 
    {w : WriterImpl} (exact_ : w.Exact) (laidW : w.Laid) :
    ∀ {writes : List (UInt32 × Written)} {s : IsarSerializer}, s.Open →
      s.staticSize = w.staticSize → TypedAll all w writes → (writes.map Prod.fst).Nodup →
      FitsAll all s.offset s.buffer.length w writes →
      ∃ s', w.writeAll all s writes = some s' ∧ WritesAll all s s' w writes
  | [], s, _, _, _, _, _ =>
    ⟨s, rfl, Wrote.refl _ _ _, trivial, fun _ _ _ _ => .refl _ _ _⟩
  | (index, value) :: writes, s, open_, size, typed, nodup, fits => by
    obtain ⟨⟨addressed, p, found, typed⟩, fields⟩ := typed
    obtain ⟨fresh, nodup⟩ := List.nodup_cons.mp nodup
    have slot := laidW.inside index p found
    simp only [FitsAll, found] at fits
    obtain ⟨s₁, eq₁, first⟩ := write_spec laid (exact_ index p addressed found) open_
      (by rw [size]; exact slot) typed fits.1
    have len₁ := first.wrote.length
    obtain ⟨s₂, eq₂, rest⟩ := writeAll_spec laid exact_ laidW (first.wrote.isOpen open_)
      (first.wrote.staticSize.trans size) fields nodup
      (by rw [first.wrote.offset, len₁]; exact fits.2)
    have start := first.wrote.offset
    have wrote₂ := rest.wrote
    rw [start] at wrote₂
    refine ⟨s₂, by simp only [WriterImpl.writeAll, eq₁, eq₂], ?_, ?_, ?_⟩
    · have whole := (first.wrote.mono (Nat.le_add_right _ _) (by omega)).trans wrote₂
      simpa only [dynamicSizeAll, found] using whole
    · -- The later writes leave the slot and the dynamic bytes of the first one alone.
      have others := rest.others index p fresh found
      rw [start] at others
      have dynamic : AgreeOn s₁.buffer s₂.buffer s.buffer.length
          (s.buffer.length + dynamicSize all p value) :=
        wrote₂.after.mono (by unfold Open at open_; omega) (by omega)
      have holds := rest.holds
      rw [start, len₁] at holds
      simp only [HoldsAll, found]
      exact ⟨first.holds.congr laid typed others dynamic (by have := wrote₂.length; omega), holds⟩
    · intro j q absent foundJ
      simp only [List.map_cons, List.mem_cons, not_or] at absent
      have others := rest.others j q absent.2 foundJ
      rw [start] at others
      refine AgreeOn.trans ?_ others
      have inside := laidW.inside j q foundJ
      rcases laidW.apart j index q p absent.1 foundJ found with left | right
      · exact first.wrote.before.mono (Nat.zero_le _) (by omega)
      · exact first.wrote.after.mono (by omega) (by unfold Open at open_; omega)

end

/-! ## Writes that do not fit -/

/-- What every write of a value in some slot does, whether or not it fits. -/
structure Touches (s s' : IsarSerializer) (p : NativeProperty) : Prop where
  staticSize : s'.staticSize = s.staticSize
  slot : p.offset + p.dataType.staticSize ≤ s.staticSize

theorem touches_slot {s s' : IsarSerializer} {p : NativeProperty} {bs : Bytes}
    (h : s.writeStaticChecked p.offset bs = some s') (size : bs.length = p.dataType.staticSize) :
    Touches s s' p := by
  obtain ⟨same, slot⟩ := of_writeStaticChecked h
  exact ⟨same, by rwa [size] at slot⟩

/-- A write that succeeds keeps the size of the static section, in which its slot lies. -/
theorem touches_write {w : WriterImpl} {s s' : IsarSerializer} {i : UInt32} {p : NativeProperty}
    {v : Written} (found : w.getProperty i = some p) (typed : Typed all p v)
    (h : w.write all s i v = some s') : Touches s s' p := by
  cases v with
  | null =>
    simp only [WriterImpl.write, WriterImpl.writeNull, found, writeNull_eq] at h
    exact touches_slot h (length_nullBytes _)
  | bool value =>
    have type : p.dataType = .bool := typed
    simp only [WriterImpl.write, WriterImpl.writeBool, WriterImpl.writeAt, ← type,
      getOffset_of_property found] at h
    exact touches_slot h (by rw [type]; rfl)
  | byte value =>
    have type : p.dataType = .byte := typed
    simp only [WriterImpl.write, WriterImpl.writeByte, WriterImpl.writeAt, ← type,
      getOffset_of_property found] at h
    exact touches_slot h (by rw [type]; rfl)
  | int value =>
    have type : p.dataType = .int := typed
    simp only [WriterImpl.write, WriterImpl.writeInt, WriterImpl.writeAt, ← type,
      getOffset_of_property found] at h
    exact touches_slot h (by rw [type, length_i32Le]; rfl)
  | float value =>
    have type : p.dataType = .float := typed
    simp only [WriterImpl.write, WriterImpl.writeFloat, WriterImpl.writeAt, ← type,
      getOffset_of_property found] at h
    exact touches_slot h (by rw [type, length_f32Le]; rfl)
  | long value =>
    have type : p.dataType = .long := typed
    simp only [WriterImpl.write, WriterImpl.writeLong, WriterImpl.writeAt, ← type,
      getOffset_of_property found] at h
    exact touches_slot h (by rw [type, length_i64Le]; rfl)
  | double value =>
    have type : p.dataType = .double := typed
    simp only [WriterImpl.write, WriterImpl.writeDouble, WriterImpl.writeAt, ← type,
      getOffset_of_property found] at h
    exact touches_slot h (by rw [type, length_f64Le]; rfl)
  | string value =>
    have size : p.dataType.staticSize = 3 := by
      rcases typed with eq | eq <;> rw [eq] <;> rfl
    simp only [WriterImpl.write, WriterImpl.writeString, found,
      if_pos (show _ ∨ _ from typed)] at h
    obtain ⟨same, slot⟩ := of_writeDynamic h
    exact ⟨same, by rwa [size]⟩
  | byteList value =>
    have type : p.dataType = .byteList := typed
    simp only [WriterImpl.write, WriterImpl.writeByteList, WriterImpl.writeAt, ← type,
      getOffset_of_property found] at h
    obtain ⟨same, slot⟩ := of_writeDynamic h
    exact ⟨same, by rw [type]; exact slot⟩
  | object writes =>
    obtain ⟨type, -, c, target, -⟩ := typed
    obtain ⟨k, index, collection⟩ := Option.bind_eq_some_iff.mp target
    simp only [WriterImpl.write, WriterImpl.beginObject, found, type, index, collection,
      Option.bind_eq_bind, Option.bind_some] at h
    cases begun : s.beginNested p.offset c.staticSize with
    | none => simp [begun] at h
    | some both =>
      obtain ⟨outer, nested⟩ := both
      simp only [begun, Option.bind_some, Option.pure_def, Option.map_eq_some_iff] at h
      obtain ⟨nested', -, rfl⟩ := h
      obtain ⟨same, -, slot⟩ := of_beginNested begun
      exact ⟨same, by rw [type]; exact slot⟩
  | list length writes =>
    obtain ⟨-, t, elements, -⟩ := typed
    simp only [WriterImpl.write, WriterImpl.beginList, found, elements, Option.bind_eq_bind] at h
    cases begun : s.beginNested p.offset (UInt32.ofNat t.staticSize * length).toNat with
    | none =>
      simp only [begun, Option.bind_none] at h
      cases h
    | some both =>
      obtain ⟨outer, nested⟩ := both
      simp only [begun, Option.bind_some, Option.pure_def, Option.map_eq_some_iff] at h
      obtain ⟨nested', -, rfl⟩ := h
      obtain ⟨same, -, slot⟩ := of_beginNested begun
      exact ⟨same, by rw [staticSize_of_elementType elements]; exact slot⟩

/-- A section in which the slot of some value does not lie panics. -/
theorem writeAll_outside {w : WriterImpl} {i : UInt32} {p : NativeProperty} {v : Written}
    (found : w.getProperty i = some p) :
    ∀ {writes : List (UInt32 × Written)} {s : IsarSerializer},
      (∀ e ∈ writes, ∃ q, w.getProperty e.1 = some q ∧ Typed all q e.2) → (i, v) ∈ writes →
      s.staticSize < p.offset + p.dataType.staticSize → w.writeAll all s writes = none
  | (j, u) :: writes, s, typed, mem, outside => by
    obtain ⟨q, foundJ, typedJ⟩ := typed (j, u) (List.mem_cons_self ..)
    cases eq : w.write all s j u with
    | none => simp only [WriterImpl.writeAll, eq]
    | some s₁ =>
      simp only [WriterImpl.writeAll, eq]
      have touched := touches_write foundJ typedJ eq
      rcases List.mem_cons.mp mem with same | later
      · cases same
        rw [found] at foundJ
        cases foundJ
        have := touched.slot
        omega
      · exact writeAll_outside found (fun e mem => typed e (List.mem_cons_of_mem _ mem)) later
          (by rw [touched.staticSize]; exact outside)

theorem typed_of_typedAll {w : WriterImpl} :
    ∀ {writes : List (UInt32 × Written)}, TypedAll all w writes →
      ∀ e ∈ writes, ∃ q, w.property e.1 = some q ∧ Typed all q e.2
  | (_, _) :: _, h, e, mem => by
    rcases List.mem_cons.mp mem with rfl | mem
    · exact h.1.2
    · exact typed_of_typedAll h.2 e mem

/-- Whether a value has the type of a property does not depend on the slot. -/
theorem Typed.move {p : NativeProperty} {v : Written} (h : Typed all p v) (offset : Nat) :
    Typed all { p with offset } v := by
  cases v <;> exact h

/-- A list whose size wraps in `u32` panics at the latest at the first element that does not lie in
the wrapped section. -/
theorem writeAll_wrapped {t : DataType} {e : Option UInt16} {length : UInt32} {s : IsarSerializer}
    {writes : List (UInt32 × Written)} (complete : Complete length writes)
    (typed : TypedAll all (.list t e length) writes)
    (size : s.staticSize = (UInt32.ofNat t.staticSize * length).toNat)
    (wraps : 2 ^ 32 ≤ length.toNat * t.staticSize) :
    (WriterImpl.list t e length).writeAll all s writes = none := by
  have positive := t.staticSize_pos
  have static_ : s.staticSize < 2 ^ 32 := size ▸ UInt32.toNat_lt _
  -- The first element that does not lie in the wrapped section.
  have small : s.staticSize / t.staticSize < length.toNat :=
    Nat.div_lt_of_lt_mul (by rw [Nat.mul_comm]; omega)
  have lower : s.staticSize / t.staticSize * t.staticSize ≤ s.staticSize := Nat.div_mul_le_self _ _
  have upper : s.staticSize < s.staticSize / t.staticSize * t.staticSize + t.staticSize :=
    Nat.lt_div_mul_add positive
  let i := UInt32.ofNat (s.staticSize / t.staticSize)
  have toNat : i.toNat = s.staticSize / t.staticSize :=
    UInt32.toNat_ofNat_of_lt' (lt_trans small (UInt32.toNat_lt _))
  have below : i < length := UInt32.lt_iff_toNat_lt.mpr (by rwa [toNat])
  obtain ⟨⟨_, v⟩, mem, rfl⟩ := List.mem_map.mp (complete.2 i below)
  have width : (UInt32.ofNat t.staticSize).toNat = t.staticSize := by
    cases t <;> rfl
  have found : (WriterImpl.list t e length).getProperty i = some ⟨t, i.toNat * t.staticSize, e⟩ := by
    simp only [WriterImpl.getProperty, if_pos below, UInt32.toNat_mul, width]
    rw [Nat.mod_eq_of_lt (by rw [toNat]; omega)]
  refine writeAll_outside found (fun u hu => ?_) mem (by simp only [toNat]; omega)
  obtain ⟨q, foundQ, typedQ⟩ := typed_of_typedAll typed u hu
  obtain ⟨belowQ, rfl⟩ := WriterImpl.property_list.mp foundQ
  refine ⟨_, ?_, typedQ.move (u.1 * UInt32.ofNat t.staticSize).toNat⟩
  simp only [WriterImpl.getProperty, if_pos belowQ]

theorem write_object_eq_none {w : WriterImpl} {s : IsarSerializer} {i : UInt32}
    {p : NativeProperty} {c : NativeCollection} {writes : List (UInt32 × Written)}
    (found : w.getProperty i = some p) (type : p.dataType = .object)
    (target : p.embedded all = some c) (h : s.beginNested p.offset c.staticSize = none) :
    w.write all s i (.object writes) = none := by
  obtain ⟨k, index, collection⟩ := Option.bind_eq_some_iff.mp target
  simp [WriterImpl.write, WriterImpl.beginObject, found, type, index, collection, h]

theorem write_list_eq_none {w : WriterImpl} {s : IsarSerializer} {i length : UInt32}
    {p : NativeProperty} {t : DataType} {writes : List (UInt32 × Written)}
    (found : w.getProperty i = some p) (elements : p.dataType.elementType = some t)
    (h : s.beginNested p.offset (UInt32.ofNat t.staticSize * length).toNat = none) :
    w.write all s i (.list length writes) = none := by
  simp only [WriterImpl.write, WriterImpl.beginList, found, elements, h, Option.bind_eq_bind,
    Option.bind_none]

mutual

theorem write_eq_none (laid : ∀ c ∈ all, c.Laid) 
    {w : WriterImpl} {s : IsarSerializer} {i : UInt32} {p : NativeProperty}
    (found : w.getProperty i = some p) (open_ : s.Open)
    (slot : p.offset + p.dataType.staticSize ≤ s.staticSize) :
    ∀ {v : Written}, Typed all p v → ¬ FitsAt all s.offset s.buffer.length p v →
      w.write all s i v = none
  | .null, _, fits => absurd trivial fits
  | .bool _, _, fits => absurd trivial fits
  | .byte _, _, fits => absurd trivial fits
  | .int _, _, fits => absurd trivial fits
  | .float _, _, fits => absurd trivial fits
  | .long _, _, fits => absurd trivial fits
  | .double _, _, fits => absurd trivial fits
  | .string value, typed, fits => by
    simp only [WriterImpl.write, WriterImpl.writeString, found, if_pos (show _ ∨ _ from typed)]
    exact writeDynamic_eq_none fits
  | .byteList value, typed, fits => by
    have type : p.dataType = .byteList := typed
    simp only [WriterImpl.write, WriterImpl.writeByteList, WriterImpl.writeAt, ← type,
      getOffset_of_property found]
    exact writeDynamic_eq_none fits
  | .object writes, typed, fits => by
    obtain ⟨type, nodup, c, target, fields⟩ := typed
    have size : p.dataType.staticSize = 3 := by rw [type]; rfl
    have mem := mem_of_embedded target
    simp only [FitsAt, target] at fits
    by_cases outer : s.buffer.length - s.offset < 2 ^ 24 ∧ c.staticSize < 2 ^ 24
    · obtain ⟨nested, begun, openN, start, static_, len⟩ :=
        beginNested_open open_ (by rwa [size] at slot) outer.1 outer.2
      have inner := writeAll_eq_none_of_not_fits laid (WriterImpl.exact_object c)
        (WriterImpl.laid_object (laid c mem)) openN static_ fields
        (by rw [start, len]; exact fun inside => fits ⟨outer.1, outer.2, inside⟩)
      simp only [WriterImpl.write, beginObject_eq found type target begun, inner, Option.map_none]
    · exact write_object_eq_none found type target (beginNested_eq_none outer)
  | .list length writes, typed, fits => by
    obtain ⟨complete, t, elements, fields⟩ := typed
    have size := staticSize_of_elementType elements
    simp only [FitsAt, elements] at fits
    by_cases outer : s.buffer.length - s.offset < 2 ^ 24 ∧
        (UInt32.ofNat t.staticSize * length).toNat < 2 ^ 24
    · obtain ⟨nested, begun, openN, start, static_, len⟩ :=
        beginNested_open open_ (by rwa [size] at slot) outer.1 outer.2
      have list := beginList_eq found elements begun
      by_cases wraps : 2 ^ 32 ≤ length.toNat * t.staticSize
      · have inner := writeAll_wrapped complete fields static_ wraps
        simp only [WriterImpl.write, list, inner, Option.map_none]
      · have product := listSize_toNat (t := t) (Nat.lt_of_not_le wraps)
        rw [product] at outer static_ len
        have inner := writeAll_eq_none_of_not_fits laid
          (WriterImpl.exact_list (Nat.lt_of_not_le wraps)) (WriterImpl.laid_list _ _ _) openN
          static_ fields (by rw [start, len]; exact fun inside => fits ⟨outer.1, outer.2, inside⟩)
        simp only [WriterImpl.write, list, inner, Option.map_none]
    · exact write_list_eq_none found elements (beginNested_eq_none outer)

theorem writeAll_eq_none_of_not_fits (laid : ∀ c ∈ all, c.Laid)
    
    {w : WriterImpl} (exact_ : w.Exact) (laidW : w.Laid) :
    ∀ {writes : List (UInt32 × Written)} {s : IsarSerializer}, s.Open →
      s.staticSize = w.staticSize → TypedAll all w writes →
      ¬ FitsAll all s.offset s.buffer.length w writes → w.writeAll all s writes = none
  | [], s, _, _, _, fits => absurd trivial fits
  | (index, value) :: writes, s, open_, size, typed, fits => by
    obtain ⟨⟨addressed, p, found, typed⟩, fields⟩ := typed
    have slot := laidW.inside index p found
    simp only [FitsAll, found] at fits
    by_cases first : FitsAt all s.offset s.buffer.length p value
    · obtain ⟨s₁, eq₁, wrote⟩ := write_spec laid (exact_ index p addressed found) open_
        (by rw [size]; exact slot) typed first
      have rest := writeAll_eq_none_of_not_fits laid exact_ laidW (wrote.wrote.isOpen open_)
        (wrote.wrote.staticSize.trans size) fields
        (by rw [wrote.wrote.offset, wrote.wrote.length]; exact fun rest => fits ⟨first, rest⟩)
      simp only [WriterImpl.writeAll, eq₁, rest]
    · have panics := write_eq_none laid (exact_ index p addressed found) open_
        (by rw [size]; exact slot) typed first
      simp only [WriterImpl.writeAll, panics]

end

end

end IsarPlus.Native
