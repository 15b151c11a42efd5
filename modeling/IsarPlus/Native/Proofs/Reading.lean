import IsarPlus.Native.ReadBack
import IsarPlus.Native.Proofs.Writing

/-!
# Written bytes read back

What stands in a buffer is what the readers find there.
-/

namespace IsarPlus.Native
open ByteBuffer Scalar
open Sqlite (Written)

/-- A section of a buffer, as a deserializer sees it. -/
def sectionAt (b : Bytes) (base staticSize : Nat) : IsarDeserializer :=
  { bytes := b.drop base, staticSize }

namespace IsarDeserializer

variable {b : Bytes} {base n offset : Nat}

theorem readU24_of_at {v : Nat} (h : At b offset (leBytes 3 v)) (small : v < 2 ^ 24) :
    readU24 b offset = some v := readLe_of_at h small

theorem slice_drop {bs : Bytes} (inside : base ≤ b.length) (h : At b (base + offset) bs) :
    slice (b.drop base) offset bs.length = some bs := (at_drop inside).mpr h

theorem base_le {bs : Bytes} (h : At b (base + offset) bs) : base ≤ b.length := by
  have := h.bound
  omega

/-- A static value that lies in the section. -/
theorem slot_eq {bs : Bytes} (h : At b (base + offset) bs) :
    slice (sectionAt b base n).bytes offset bs.length = some bs := slice_drop (base_le h) h

theorem containsOffset_of_lt (lt : offset < n) : (sectionAt b base n).containsOffset offset = true :=
  decide_eq_true lt

theorem readBool_slot {v : UInt8} (h : At b (base + offset) [v]) (lt : offset < n) :
    (sectionAt b base n).readBool offset =
      some (if v = falseBool then some false else if v = trueBool then some true else none) := by
  have found := slot_eq (n := n) h
  rw [List.length_singleton] at found
  rw [readBool, if_pos (containsOffset_of_lt lt), found]
  rfl

theorem readByte_slot {v : UInt8} (h : At b (base + offset) [v]) (lt : offset < n) :
    (sectionAt b base n).readByte offset = some v := by
  have found := slot_eq (n := n) h
  rw [List.length_singleton] at found
  rw [readByte, if_pos (containsOffset_of_lt lt), found]
  rfl

theorem readInt_slot {v : Int32} (h : At b (base + offset) (i32Le v)) (lt : offset < n) :
    (sectionAt b base n).readInt offset = some v := by
  have found := slot_eq (n := n) h
  rw [length_i32Le] at found
  rw [readInt, if_pos (containsOffset_of_lt lt), found, Option.map_some, leI32_i32Le]

theorem readFloat_slot {v : F32} (h : At b (base + offset) (f32Le v)) (lt : offset < n) :
    (sectionAt b base n).readFloat offset = some v := by
  have found := slot_eq (n := n) h
  rw [length_f32Le] at found
  rw [readFloat, if_pos (containsOffset_of_lt lt), found, Option.map_some, leF32_f32Le]

theorem readLong_slot {v : Int64} (h : At b (base + offset) (i64Le v)) (lt : offset < n) :
    (sectionAt b base n).readLong offset = some v := by
  have found := slot_eq (n := n) h
  rw [length_i64Le] at found
  rw [readLong, if_pos (containsOffset_of_lt lt), found, Option.map_some, leI64_i64Le]

theorem readDouble_slot {v : F64} (h : At b (base + offset) (f64Le v)) (lt : offset < n) :
    (sectionAt b base n).readDouble offset = some v := by
  have found := slot_eq (n := n) h
  rw [length_f64Le] at found
  rw [readDouble, if_pos (containsOffset_of_lt lt), found, Option.map_some, leF64_f64Le]

theorem getOffset_slot {v : Nat} (h : At b (base + offset) (leBytes 3 v)) (small : v < 2 ^ 24)
    (lt : offset < n) :
    (sectionAt b base n).getOffset offset = some (if 0 < v then some v else none) := by
  have found : readU24 (sectionAt b base n).bytes offset = some v :=
    readU24_of_at ((at_drop (base_le h)).mpr h) small
  rw [getOffset, if_pos (containsOffset_of_lt lt), found]
  rfl

/-- A slot that points to the length of some data. -/
theorem getOffsetLength_slot {v length : Nat} (h : At b (base + offset) (leBytes 3 v))
    (small : v < 2 ^ 24) (positive : 0 < v) (lt : offset < n)
    (header : At b (base + v) (leBytes 3 length)) (fits : length < 2 ^ 24) :
    (sectionAt b base n).getOffsetLength offset = some (some (v + 3, length)) := by
  have found : readU24 (sectionAt b base n).bytes v = some length :=
    readU24_of_at ((at_drop (base_le header)).mpr header) fits
  simp only [getOffsetLength, getOffset_slot h small lt, if_pos positive, found,
    Option.bind_eq_bind, Option.bind_some, Option.pure_def]

theorem readDynamic_slot {v : Nat} {bs : Bytes} (h : At b (base + offset) (leBytes 3 v))
    (small : v < 2 ^ 24) (positive : 0 < v) (lt : offset < n)
    (header : At b (base + v) (leBytes 3 bs.length)) (fits : bs.length < 2 ^ 24)
    (data : At b (base + v + 3) bs) :
    (sectionAt b base n).readDynamic offset = some (some bs) := by
  have found : slice (sectionAt b base n).bytes (v + 3) bs.length = some bs :=
    slice_drop (base_le header) data
  simp only [readDynamic, getOffsetLength_slot h small positive lt header fits, found,
    Option.bind_eq_bind, Option.bind_some, Option.pure_def]

theorem readNested_slot {v m : Nat} (h : At b (base + offset) (leBytes 3 v))
    (small : v < 2 ^ 24) (positive : 0 < v) (lt : offset < n)
    (header : At b (base + v) (leBytes 3 m)) (fits : m < 2 ^ 24) :
    (sectionAt b base n).readNested offset = some (some (sectionAt b (base + v + 3) m)) := by
  have bound := header.bound
  rw [length_leBytes] at bound
  have inside : v ≤ (sectionAt b base n).bytes.length := by
    simp only [sectionAt, List.length_drop]
    omega
  have found : readU24 ((sectionAt b base n).bytes.drop v) 0 = some m := by
    have : At (b.drop base |>.drop v) 0 (leBytes 3 m) := by
      rw [List.drop_drop]
      exact (at_drop (by omega)).mpr header
    exact readU24_of_at this fits
  have opened : fromBytes ((sectionAt b base n).bytes.drop v) =
      some (sectionAt b (base + v + 3) m) := by
    rw [fromBytes, found]
    simp only [Option.bind_eq_bind, Option.bind_some, Option.pure_def, sectionAt, List.drop_drop]
  simp only [readNested, getOffset_slot h small lt, if_pos positive, if_pos inside, opened,
    Option.bind_eq_bind, Option.bind_some, Option.pure_def]

theorem readList_slot {v m : Nat} {t : DataType} (h : At b (base + offset) (leBytes 3 v))
    (small : v < 2 ^ 24) (positive : 0 < v) (lt : offset < n)
    (header : At b (base + v) (leBytes 3 (m * t.staticSize))) (fits : m * t.staticSize < 2 ^ 24) :
    (sectionAt b base n).readList offset t =
      some (some (sectionAt b (base + v + 3) (m * t.staticSize), m)) := by
  simp only [readList, readNested_slot h small positive lt header fits, Option.bind_eq_bind,
    Option.bind_some, Option.pure_def]
  rw [sectionAt, Nat.mul_div_cancel _ t.staticSize_pos]

/-- A slot that is null. -/
theorem getOffset_null (h : At b (base + offset) (leBytes 3 0)) (lt : offset < n) :
    (sectionAt b base n).getOffset offset = some none := getOffset_slot h (by decide) lt

/-- Where the length of some data can be read, a nested section can be opened. -/
theorem readNested_isSome {d : IsarDeserializer} (h : (d.getOffsetLength offset).isSome) :
    (d.readNested offset).isSome := by
  unfold getOffsetLength at h
  cases eq : d.getOffset offset with
  | none => simp [eq] at h
  | some o =>
    cases o with
    | none => simp [readNested, eq]
    | some o =>
      simp only [eq, Option.bind_eq_bind, Option.bind_some, Option.isSome_bind] at h
      cases header : readU24 d.bytes o with
      | none => simp [header] at h
      | some length =>
        have stands := (at_of_readLe header).1
        have bound := stands.bound
        rw [length_leBytes] at bound
        have opened : readU24 (d.bytes.drop o) 0 = some length :=
          readU24_of_at ((at_drop (by omega)).mpr stands) (at_of_readLe header).2
        simp [readNested, eq, show o ≤ d.bytes.length by omega, fromBytes, opened]

/-- No read of a property of its type leaves the buffer. -/
structure Legible (all : List NativeCollection) (d : IsarDeserializer) (p : NativeProperty) :
    Prop where
  isNull : (d.isNull p.offset p.dataType).isSome
  byte : p.dataType = .byte → (d.readByte p.offset).isSome
  dynamic : p.dataType = .string ∨ p.dataType = .json ∨ p.dataType = .byteList →
    (d.readDynamic p.offset).isSome
  target : p.dataType = .object → ∀ o, d.getOffset p.offset = some (some o) →
    (p.embedded all).isSome

theorem isNull_of_staticSize {d : IsarDeserializer} {t : DataType} (h : t.staticSize = 3) :
    d.isNull offset t = (d.getOffsetLength offset).map Option.isNone := by
  cases t <;> first
    | rfl
    | exact absurd h (by decide)

/-- Every content of a scalar slot can be read. -/
theorem readable_scalar {all : List NativeCollection} {p : NativeProperty} {bs : Bytes}
    (h : At b (base + p.offset) bs) (len : bs.length = p.dataType.staticSize)
    (size : p.dataType.staticSize ≠ 3) (lt : p.offset < n) :
    Legible all (sectionAt b base n) p := by
  have found : (slice (sectionAt b base n).bytes p.offset p.dataType.staticSize).isSome := by
    rw [← len, slot_eq h]
    rfl
  have isNull : ((sectionAt b base n).isNull p.offset p.dataType).isSome := by
    cases type : p.dataType <;> rw [type] at found size <;>
      first
        | exact absurd rfl size
        | rfl
        | (simp only [isNull, readBool, readInt, readFloat, readLong, readDouble,
            containsOffset_of_lt lt, if_true, Option.isSome_map]
           exact found)
  refine ⟨isNull, ?_, ?_, ?_⟩
  · intro type
    rw [type] at found
    rw [readByte, if_pos (containsOffset_of_lt lt), Option.isSome_map]
    exact found
  · rintro (type | type | type) <;> exact absurd (by rw [type]; rfl) size
  · intro type
    exact absurd (by rw [type]; rfl) size

/-- Behind the static section everything is null. -/
theorem readable_outside {all : List NativeCollection} {d : IsarDeserializer} {p : NativeProperty}
    (h : d.staticSize ≤ p.offset) : Legible all d p := by
  have outside : d.containsOffset p.offset = false := decide_eq_false (by omega)
  have null : d.getOffset p.offset = some none := by
    simp [getOffset, outside]
  refine ⟨?_, fun _ => ?_, fun _ => ?_, fun _ o found => ?_⟩
  · cases p.dataType <;>
      simp [isNull, readBool, readInt, readFloat, readLong, readDouble, getOffsetLength, outside,
        null]
  · simp [readByte, outside]
  · simp [readDynamic, getOffsetLength, null]
  · rw [null] at found
    cases found

/-- A slot of zeros, in which nothing was written. -/
theorem readable_zero {all : List NativeCollection} {p : NativeProperty}
    (h : At b (base + p.offset) (List.replicate p.dataType.staticSize 0))
    (slot : p.offset + p.dataType.staticSize ≤ n) : Legible all (sectionAt b base n) p := by
  have positive := p.dataType.staticSize_pos
  have lt : p.offset < n := by omega
  by_cases size : p.dataType.staticSize = 3
  · rw [size] at h
    have null := getOffset_null (n := n) h lt
    refine ⟨?_, fun type => absurd size (by rw [type]; decide), ?_, ?_⟩
    · rw [isNull_of_staticSize size]
      simp [getOffsetLength, null]
    · intro _
      simp [readDynamic, getOffsetLength, null]
    · intro _ o found
      rw [null] at found
      cases found
  · exact readable_scalar h (List.length_replicate ..) size lt

/-- A slot that points to some data. -/
theorem readable_dynamic {all : List NativeCollection} {p : NativeProperty} {v length : Nat}
    (h : At b (base + p.offset) (leBytes 3 v)) (small : v < 2 ^ 24) (positive : 0 < v)
    (lt : p.offset < n) (header : At b (base + v) (leBytes 3 length)) (fits : length < 2 ^ 24)
    (inside : base + v + 3 + length ≤ b.length) (size : p.dataType.staticSize = 3)
    (target : p.dataType = .object → (p.embedded all).isSome) :
    Legible all (sectionAt b base n) p := by
  have found := getOffsetLength_slot h small positive lt header fits
  refine ⟨?_, fun type => absurd size (by rw [type]; decide), ?_, fun type _ _ => target type⟩
  · rw [isNull_of_staticSize size, found]
    rfl
  · intro _
    have whole : slice (sectionAt b base n).bytes (v + 3) length =
        some (((sectionAt b base n).bytes.drop (v + 3)).take length) := by
      rw [slice, if_pos]
      simp only [sectionAt, List.length_drop]
      omega
    simp only [readDynamic, found, whole, Option.bind_eq_bind, Option.bind_some, Option.pure_def,
      Option.isSome_some]

end IsarDeserializer

/-! ## Readers -/

/-- The reader of what a writer has written. -/
def WriterImpl.reader (w : WriterImpl) (id : Int64) (d : IsarDeserializer) : Reader :=
  match w with
  | .object collection => .object id d collection
  | .list elementType embeddedCollectionIndex _ => .list d elementType embeddedCollectionIndex

namespace Reader

variable {all : List NativeCollection} {r : Reader} {i : UInt32} {p : NativeProperty}

/-- The elements of a list are neither JSON nor lists. -/
def Sound : Reader → Prop
  | .object _ _ _ => True
  | .list _ dataType _ => dataType ≠ .json ∧ dataType.elementType = none

theorem readAt_eq {α : Type} {t : DataType} {null : α} {read : IsarDeserializer → Nat → Option α}
    (found : r.getProperty i = some p) (type : p.dataType = t) :
    r.readAt i t null read = read r.deserializer p.offset := by
  simp [readAt, found, type]

theorem readAt_isSome {α : Type} {t : DataType} {null : α} {read : IsarDeserializer → Nat → Option α}
    (h : ∀ p, r.getProperty i = some p → p.dataType = t → (read r.deserializer p.offset).isSome) :
    (r.readAt i t null read).isSome := by
  cases found : r.getProperty i with
  | none => simp [readAt, found]
  | some p =>
    by_cases type : p.dataType = t
    · rw [readAt_eq found type]
      exact h p found type
    · simp [readAt, found, type]

theorem isNull_eq (found : r.getProperty i = some p) :
    r.isNull i = r.deserializer.isNull p.offset p.dataType := by
  simp [isNull, found]

theorem isSome_getOffsetLength {d : IsarDeserializer} (h : IsarDeserializer.Legible all d p)
    (size : p.dataType.staticSize = 3) : (d.getOffsetLength p.offset).isSome := by
  have := h.isNull
  rwa [IsarDeserializer.isNull_of_staticSize size, Option.isSome_map] at this

theorem readString_isSome (h : ∀ p, r.getProperty i = some p →
    IsarDeserializer.Legible all r.deserializer p) : (r.readString i).isSome := by
  cases found : r.getProperty i with
  | none => cases r <;> simp [readString, found]
  | some p =>
    have dynamic := (h p found).dynamic
    cases r with
    | object id d c =>
      by_cases type : p.dataType = .string ∨ p.dataType = .json
      · simp only [readString, found, if_pos type]
        exact dynamic (type.imp_right Or.inl)
      · simp only [readString, found, if_neg type, Option.isSome_some]
    | list d t e =>
      by_cases type : p.dataType = .string
      · simp only [readString, found, if_pos type]
        exact dynamic (Or.inl type)
      · simp only [readString, found, if_neg type, Option.isSome_some]

theorem readObject_isSome (h : ∀ p, r.getProperty i = some p →
    IsarDeserializer.Legible all r.deserializer p) : (r.readObject all i).isSome := by
  cases found : r.getProperty i with
  | none => simp [readObject, found]
  | some p =>
    by_cases type : p.dataType = .object
    · have nested := IsarDeserializer.readNested_isSome
        (isSome_getOffsetLength (h p found) (by rw [type]; rfl))
      obtain ⟨o, opened⟩ := Option.isSome_iff_exists.mp nested
      cases o with
      | none => simp [readObject, found, type, opened]
      | some inner =>
        have present : ∃ o, r.deserializer.getOffset p.offset = some (some o) := by
          cases eq : r.deserializer.getOffset p.offset with
          | none => simp [IsarDeserializer.readNested, eq] at opened
          | some o =>
            cases o with
            | none => simp [IsarDeserializer.readNested, eq] at opened
            | some o => exact ⟨o, rfl⟩
        obtain ⟨o, offset⟩ := present
        obtain ⟨c, target⟩ := Option.isSome_iff_exists.mp ((h p found).target type o offset)
        obtain ⟨k, index, collection⟩ := Option.bind_eq_some_iff.mp target
        simp [readObject, found, type, opened, index, collection]
    · simp [readObject, found, type]

theorem readList_isSome (h : ∀ p, r.getProperty i = some p →
    IsarDeserializer.Legible all r.deserializer p) : (r.readList i).isSome := by
  cases r with
  | list d t e => simp [readList]
  | object id d c =>
    cases found : (object id d c).getProperty i with
    | none => simp [readList, found]
    | some p =>
      cases elements : p.dataType.elementType with
      | none => simp [readList, found, elements]
      | some t =>
        have nested := IsarDeserializer.readNested_isSome
          (isSome_getOffsetLength (h p found) (staticSize_of_elementType elements))
        obtain ⟨o, opened⟩ := Option.isSome_iff_exists.mp nested
        have opened : d.readNested p.offset = some o := opened
        cases o <;> simp [readList, found, elements, IsarDeserializer.readList, opened]

/-- Reads are safe if the property of the index can be read. -/
theorem safe_of_readable (h : ∀ p, r.getProperty i = some p →
    IsarDeserializer.Legible all r.deserializer p) : r.Safe all i := by
  have scalar {α : Type} {t : DataType} {null : α} {read : IsarDeserializer → Nat → Option α}
      {f : α → Bool} (eq : ∀ d o, IsarDeserializer.isNull d o t = (read d o).map f) :
      (r.readAt i t null read).isSome := by
    refine readAt_isSome fun p found type => ?_
    have := (h p found).isNull
    rwa [type, eq, Option.isSome_map] at this
  refine ⟨?_, ?_, ?_, ?_, ?_, ?_, ?_, readString_isSome h, ?_, readObject_isSome h,
    readList_isSome h⟩
  · cases found : r.getProperty i with
    | none => simp [isNull, found]
    | some p =>
      rw [isNull_eq found]
      exact (h p found).isNull
  · exact scalar (f := Option.isNone) fun _ _ => rfl
  · exact readAt_isSome fun p found type => (h p found).byte type
  · exact scalar (f := (· == nullInt)) fun _ _ => rfl
  · exact scalar (f := F32.isNan) fun _ _ => rfl
  · exact scalar (f := (· == nullLong)) fun _ _ => rfl
  · exact scalar (f := F64.isNan) fun _ _ => rfl
  · cases r with
    | list d t e => rfl
    | object id d c =>
      exact readAt_isSome fun p found type => (h p found).dynamic (Or.inr (Or.inr type))

/-! ### Reads of dynamic properties -/

theorem Sound.dataType (sound : r.Sound) (found : r.getProperty i = some p)
    (special : p.dataType = .json ∨ p.dataType.elementType ≠ none) :
    ∃ id d c, r = .object id d c := by
  cases r with
  | object id d c => exact ⟨id, d, c, rfl⟩
  | list d t e =>
    obtain rfl := Option.some.inj (show some _ = some p from found)
    rcases special with json | elements
    · exact absurd json sound.1
    · exact absurd sound.2 elements

theorem readString_eq (found : r.getProperty i = some p) (sound : r.Sound)
    (type : p.dataType = .string ∨ p.dataType = .json) :
    r.readString i = r.deserializer.readDynamic p.offset := by
  cases r with
  | object id d c =>
    simp only [readString, found, if_pos type]
    rfl
  | list d t e =>
    rcases type with string | json
    · simp only [readString, found, if_pos string]
      rfl
    · obtain ⟨_, _, _, eq⟩ := sound.dataType found (Or.inl json)
      cases eq

theorem readBlob_eq (found : r.getProperty i = some p) (sound : r.Sound)
    (type : p.dataType = .byteList) : r.readBlob i = r.deserializer.readDynamic p.offset := by
  obtain ⟨id, d, c, rfl⟩ := sound.dataType found (Or.inr (by rw [type]; decide))
  exact readAt_eq found type

theorem readObject_eq {c : NativeCollection} {nested : IsarDeserializer}
    (found : r.getProperty i = some p) (type : p.dataType = .object)
    (target : p.embedded all = some c)
    (opened : r.deserializer.readNested p.offset = some (some nested)) :
    r.readObject all i = some (some (.object Int64.minValue nested c)) := by
  obtain ⟨k, index, collection⟩ := Option.bind_eq_some_iff.mp target
  simp [readObject, found, type, opened, index, collection]

theorem readList_eq {t : DataType} {nested : IsarDeserializer} {length : Nat}
    (found : r.getProperty i = some p) (sound : r.Sound)
    (elements : p.dataType.elementType = some t)
    (opened : r.deserializer.readList p.offset t = some (some (nested, length))) :
    r.readList i = some (some (.list nested t p.embeddedCollectionIndex, length)) := by
  obtain ⟨id, d, c, rfl⟩ := sound.dataType found (Or.inr (by rw [elements]; simp))
  have opened : d.readList p.offset t = some (some (nested, length)) := opened
  simp [readList, found, elements, opened]

/-- The elements of a list read as a list. -/
theorem sound_list {d : IsarDeserializer} {l t : DataType} {e : Option UInt16}
    (elements : l.elementType = some t) : (Reader.list d t e).Sound := by
  cases l <;> cases elements <;> exact ⟨by decide, rfl⟩

end Reader

/-! ## Values -/

section
variable {all : List NativeCollection} {b : Bytes} {base at_ n : Nat} {p : NativeProperty}

open IsarDeserializer

/-- A property with dynamic bytes, or with a nested section, can be read. -/
theorem readable_behind {length : Nat} (offset : At b (base + p.offset) (leBytes 3 (at_ - base)))
    (near : at_ - base < 2 ^ 24) (slot : p.offset + p.dataType.staticSize ≤ n)
    (behind : base + n ≤ at_) (size : p.dataType.staticSize = 3)
    (header : At b at_ (leBytes 3 length)) (fits : length < 2 ^ 24)
    (inside : at_ + 3 + length ≤ b.length)
    (target : p.dataType = .object → (p.embedded all).isSome) :
    Legible all (sectionAt b base n) p := by
  have start : base + (at_ - base) = at_ := by omega
  refine readable_dynamic offset near (by omega) (by omega) (by rwa [start]) fits ?_ size target
  omega

theorem Holds.readable {v : Written} (holds : Holds all b base at_ p v) (typed : Typed all p v)
    (fits : FitsAt all base at_ p v) (slot : p.offset + p.dataType.staticSize ≤ n)
    (behind : base + n ≤ at_) : Legible all (sectionAt b base n) p := by
  have positive := p.dataType.staticSize_pos
  have scalar {bs : Bytes} {k : Nat} (stands : At b (base + p.offset) bs) (len : bs.length = k)
      (size : p.dataType.staticSize = k) (ne : k ≠ 3) : Legible all (sectionAt b base n) p :=
    readable_scalar stands (len.trans size.symm) (by omega) (by omega)
  cases v with
  | null =>
    by_cases size : p.dataType.staticSize = 3
    · have zero : nullBytes p.dataType = List.replicate p.dataType.staticSize 0 := by
        cases type : p.dataType <;> rw [type] at size <;>
          first
            | rfl
            | exact absurd size (by decide)
      have stands : At b (base + p.offset) (nullBytes p.dataType) := holds
      exact readable_zero (zero ▸ stands) slot
    · exact readable_scalar holds (length_nullBytes _) size (by omega)
  | bool value =>
    exact scalar (k := 1) holds rfl (by rw [show p.dataType = _ from typed]; rfl) (by decide)
  | byte value =>
    exact scalar (k := 1) holds rfl (by rw [show p.dataType = _ from typed]; rfl) (by decide)
  | int value =>
    exact scalar holds (length_i32Le _) (by rw [show p.dataType = _ from typed]; rfl) (by decide)
  | float value =>
    exact scalar holds (length_f32Le _) (by rw [show p.dataType = _ from typed]; rfl) (by decide)
  | long value =>
    exact scalar holds (length_i64Le _) (by rw [show p.dataType = _ from typed]; rfl) (by decide)
  | double value =>
    exact scalar holds (length_f64Le _) (by rw [show p.dataType = _ from typed]; rfl) (by decide)
  | string value =>
    have size : p.dataType.staticSize = 3 := by
      rcases typed with eq | eq <;> rw [eq] <;> rfl
    refine readable_behind holds.1 fits.1 slot behind size holds.2.1 fits.2 holds.2.2.bound ?_
    intro type
    rcases typed with eq | eq <;> rw [type] at eq <;> cases eq
  | byteList value =>
    have type : p.dataType = .byteList := typed
    refine readable_behind holds.1 fits.1 slot behind (by rw [type]; rfl) holds.2.1 fits.2
      holds.2.2.bound ?_
    intro eq
    rw [type] at eq
    cases eq
  | object writes =>
    obtain ⟨type, -, c, target, -⟩ := typed
    simp only [Holds, target] at holds
    simp only [FitsAt, target] at fits
    exact readable_behind holds.1.1 fits.1 slot behind (by rw [type]; rfl) holds.1.2.1 fits.2.1
      holds.1.2.2.1 fun _ => by rw [target]; rfl
  | list length writes =>
    obtain ⟨-, t, elements, -⟩ := typed
    simp only [Holds, elements] at holds
    simp only [FitsAt, elements] at fits
    refine readable_behind holds.1.1 fits.1 slot behind (staticSize_of_elementType elements)
      holds.1.2.1 fits.2.1 holds.1.2.2.1 ?_
    intro type
    rw [type] at elements
    cases elements

/-- A value of a section, with the place of its dynamic bytes. -/
theorem exists_of_holdsAll {w : WriterImpl} {i : UInt32} :
    ∀ {writes : List (UInt32 × Written)} {at_ : Nat}, HoldsAll all b base at_ w writes →
      TypedAll all w writes → FitsAll all base at_ w writes → i ∈ writes.map Prod.fst →
      ∃ p v at', at_ ≤ at' ∧ (i, v) ∈ writes ∧ w.property i = some p ∧ Typed all p v ∧
        FitsAt all base at' p v ∧ Holds all b base at' p v
  | (j, v) :: writes, at_, holds, typed, fits, mem => by
    obtain ⟨⟨addressed, p, found, typed⟩, fields⟩ := typed
    simp only [HoldsAll, found] at holds
    simp only [FitsAll, found] at fits
    rcases List.mem_cons.mp mem with rfl | mem
    · exact ⟨p, v, at_, le_rfl, List.mem_cons_self .., found, typed, fits.1, holds.1⟩
    · obtain ⟨q, u, at', le, memU, rest⟩ := exists_of_holdsAll holds.2 fields fits.2 mem
      exact ⟨q, u, at', by omega, List.mem_cons_of_mem _ memU, rest⟩

/-! ## Sections -/

/-- What the index of a reader stands for in the section that was written. -/
theorem getProperty_reader {w : WriterImpl} (id : Int64) (d : IsarDeserializer) {i : UInt32}
    (exact_ : w.Exact) (addressed : w.Addresses i) (found : w.property i = some p) :
    (w.reader id d).getProperty i = some p := by
  have same := exact_ i p addressed found
  cases w with
  | object c => exact same
  | list t e length =>
    obtain ⟨below, -⟩ := WriterImpl.property_list.mp found
    simp only [WriterImpl.getProperty, if_pos below] at same
    exact same

/-- An index outside the section, or one of its properties. -/
theorem property_of_reader {w : WriterImpl} {id : Int64} {d : IsarDeserializer} {i : UInt32}
    (inRange : (w.reader id d).InRange i) (found : (w.reader id d).getProperty i = some p) :
    (w.staticSize ≤ p.offset ∧ ∃ t e k, w = .list t e k ∧ p.dataType = t) ∨
      ∃ j, w.property j = some p := by
  cases w with
  | object c =>
    right
    have found : c.getProperty i.toUInt16 = some p := found
    unfold NativeCollection.getProperty at found
    split at found
    · rename_i nonzero
      obtain ⟨⟨name, q⟩, get, rfl⟩ := Option.map_eq_some_iff.mp found
      refine ⟨i.toUInt16.toUInt32, WriterImpl.property_object.mpr ⟨?_, name, by simpa using get⟩⟩
      intro zero
      apply nonzero
      have back := congrArg UInt32.toUInt16 zero
      rwa [UInt16.toUInt16_toUInt32] at back
    · cases found
  | list t e length =>
    have product : i.toNat * t.staticSize < 2 ^ 32 := inRange
    have width : (UInt32.ofNat t.staticSize).toNat = t.staticSize := by
      cases t <;> rfl
    have found : some _ = some p := found
    have offset : (i * UInt32.ofNat t.staticSize).toNat = i.toNat * t.staticSize := by
      rw [UInt32.toNat_mul, width, Nat.mod_eq_of_lt product]
    obtain rfl := Option.some.inj found
    by_cases below : i < length
    · right
      exact ⟨i, WriterImpl.property_list.mpr ⟨below, by rw [offset]⟩⟩
    · left
      refine ⟨?_, t, e, length, rfl, rfl⟩
      have le : length.toNat ≤ i.toNat := Nat.le_of_not_lt fun lt =>
        below (UInt32.lt_iff_toNat_lt.mpr lt)
      simp only [WriterImpl.staticSize, offset]
      exact Nat.mul_le_mul_right _ le

@[simp] theorem deserializer_reader (w : WriterImpl) (id : Int64) (d : IsarDeserializer) :
    (w.reader id d).deserializer = d := by
  cases w <;> rfl

/-- The properties of a section that was written can be read. -/
theorem readable_section {w : WriterImpl} {writes : List (UInt32 × Written)} {j : UInt32}
    (laid : w.Laid) (typed : TypedAll all w writes)
    (behind : base + w.staticSize ≤ at_) (fits : FitsAll all base at_ w writes)
    (holds : HoldsAll all b base at_ w writes)
    (zero : ∀ i q, i ∉ writes.map Prod.fst → w.property i = some q →
      At b (base + q.offset) (List.replicate q.dataType.staticSize 0))
    (property : w.property j = some p) : Legible all (sectionAt b base w.staticSize) p := by
  have slot := laid.inside j p property
  by_cases mem : j ∈ writes.map Prod.fst
  · obtain ⟨q, v, at', le, -, foundQ, typedQ, fitsQ, holdsQ⟩ :=
      exists_of_holdsAll holds typed fits mem
    rw [property] at foundQ
    cases foundQ
    exact holdsQ.readable typedQ fitsQ slot (by omega)
  · exact readable_zero (zero j p mem property) slot

/-- A section that was written can be read everywhere. -/
theorem safe_section {w : WriterImpl} (id : Int64) {writes : List (UInt32 × Written)}
    (laid : w.Laid) (typed : TypedAll all w writes)
    (behind : base + w.staticSize ≤ at_) (fits : FitsAll all base at_ w writes)
    (holds : HoldsAll all b base at_ w writes)
    (zero : ∀ i q, i ∉ writes.map Prod.fst → w.property i = some q →
      At b (base + q.offset) (List.replicate q.dataType.staticSize 0)) :
    ∀ i, (w.reader id (sectionAt b base w.staticSize)).InRange i →
      (w.reader id (sectionAt b base w.staticSize)).Safe all i := by
  intro i inRange
  refine Reader.safe_of_readable fun p found => ?_
  rw [deserializer_reader]
  rcases property_of_reader inRange found with ⟨outside, -⟩ | ⟨j, property⟩
  · exact readable_outside outside
  · exact readable_section laid typed behind fits holds zero property

theorem HoldsDynamic.readDynamic {value : Bytes} (holds : HoldsDynamic b base at_ p value)
    (near : at_ - base < 2 ^ 24) (small : value.length < 2 ^ 24)
    (slot : p.offset + p.dataType.staticSize ≤ n) (behind : base + n ≤ at_)
    (size : p.dataType.staticSize = 3) :
    (sectionAt b base n).readDynamic p.offset = some (some value) := by
  obtain ⟨offset, header, data⟩ := holds
  have start : base + (at_ - base) = at_ := by omega
  exact readDynamic_slot offset near (by omega) (by omega) (by rwa [start]) small (by rwa [start])

theorem isNull_behind {r : Reader} {i : UInt32} {length : Nat}
    (found : r.getProperty i = some p) (section_ : r.deserializer = sectionAt b base n)
    (offset : At b (base + p.offset) (leBytes 3 (at_ - base))) (near : at_ - base < 2 ^ 24)
    (slot : p.offset + p.dataType.staticSize ≤ n) (behind : base + n ≤ at_)
    (size : p.dataType.staticSize = 3) (header : At b at_ (leBytes 3 length))
    (fits : length < 2 ^ 24) : r.isNull i = some false := by
  have start : base + (at_ - base) = at_ := by omega
  rw [Reader.isNull_eq found, section_, isNull_of_staticSize size,
    getOffsetLength_slot offset near (by omega) (by omega) (by rwa [start]) fits]
  rfl

/-- A null offset reads as null in every type that has one. -/
theorem readsNull_dynamic {r : Reader} {i : UInt32} (found : r.getProperty i = some p)
    (sound : r.Sound) (size : p.dataType.staticSize = 3)
    (null : r.deserializer.getOffset p.offset = some none) :
    Reader.ReadsNull all r i p.dataType := by
  have length : r.deserializer.getOffsetLength p.offset = some none := by
    simp [getOffsetLength, null]
  have nested : r.deserializer.readNested p.offset = some none := by
    simp [readNested, null]
  have dynamic : r.deserializer.readDynamic p.offset = some none := by
    simp [readDynamic, length]
  have isNull : r.isNull i = some true := by
    rw [Reader.isNull_eq found, isNull_of_staticSize size, length]
    rfl
  have list {t : DataType} (elements : p.dataType.elementType = some t) :
      r.readList i = some none := by
    obtain ⟨id, d, c, rfl⟩ := sound.dataType found (Or.inr (by rw [elements]; simp))
    have nested : d.readNested p.offset = some none := nested
    simp [Reader.readList, found, elements, readList, nested]
  cases type : p.dataType <;> rw [type] at size list <;> try exact absurd size (by decide)
  case string =>
    exact ⟨isNull, (Reader.readString_eq found sound (Or.inl type)).trans dynamic⟩
  case json =>
    exact ⟨isNull, (Reader.readString_eq found sound (Or.inr type)).trans dynamic⟩
  case object =>
    refine ⟨isNull, ?_⟩
    show r.readObject all i = _
    simp [Reader.readObject, found, type, nested]
  case byteList =>
    exact ⟨isNull, (Reader.readBlob_eq found sound type).trans dynamic, list rfl⟩
  all_goals exact ⟨isNull, list rfl⟩

/-- A null that was written. -/
theorem readsNull {r : Reader} {i : UInt32} (found : r.getProperty i = some p)
    (section_ : r.deserializer = sectionAt b base n) (sound : r.Sound)
    (slot : p.offset + p.dataType.staticSize ≤ n)
    (holds : At b (base + p.offset) (nullBytes p.dataType)) :
    Reader.ReadsNull all r i p.dataType := by
  have positive := p.dataType.staticSize_pos
  have lt : p.offset < n := by omega
  by_cases size : p.dataType.staticSize = 3
  · have zero : nullBytes p.dataType = leBytes 3 0 := by
      cases type : p.dataType <;> rw [type] at size <;>
        first
          | rfl
          | exact absurd size (by decide)
    rw [zero] at holds
    exact readsNull_dynamic found sound size (section_ ▸ getOffset_null holds lt)
  · cases type : p.dataType <;> rw [type] at size holds <;> try exact absurd rfl size
    case bool =>
      have read := readBool_slot (n := n) holds lt
      refine ⟨?_, ?_⟩
      · rw [Reader.isNull_eq found, section_, type]
        simp only [isNull, read]
        rfl
      · show r.readBool i = _
        rw [Reader.readBool, Reader.readAt_eq found type, section_, read]
        rfl
    case byte =>
      refine ⟨?_, ?_⟩
      · rw [Reader.isNull_eq found, section_, type]
        simp only [isNull, containsOffset_of_lt lt]
        rfl
      · show r.readByte i = _
        rw [Reader.readByte, Reader.readAt_eq found type, section_, readByte_slot holds lt]
    case int =>
      have read := readInt_slot (n := n) holds lt
      refine ⟨?_, ?_⟩
      · rw [Reader.isNull_eq found, section_, type]
        simp only [isNull, read]
        rfl
      · show r.readInt i = _
        rw [Reader.readInt, Reader.readAt_eq found type, section_, read]
    case float =>
      have read := readFloat_slot (n := n) holds lt
      refine ⟨?_, ?_⟩
      · rw [Reader.isNull_eq found, section_, type]
        simp only [isNull, read]
        rfl
      · show r.readFloat i = _
        rw [Reader.readFloat, Reader.readAt_eq found type, section_, read]
    case long =>
      have read := readLong_slot (n := n) holds lt
      refine ⟨?_, ?_⟩
      · rw [Reader.isNull_eq found, section_, type]
        simp only [isNull, read]
        rfl
      · show r.readLong i = _
        rw [Reader.readLong, Reader.readAt_eq found type, section_, read]
    case double =>
      have read := readDouble_slot (n := n) holds lt
      refine ⟨?_, ?_⟩
      · rw [Reader.isNull_eq found, section_, type]
        simp only [isNull, read]
        rfl
      · show r.readDouble i = _
        rw [Reader.readDouble, Reader.readAt_eq found type, section_, read]

end

section
variable {all : List NativeCollection} {b : Bytes}

open IsarDeserializer

mutual

theorem Holds.readsBack (laid : ∀ c ∈ all, c.Laid)
    {base at_ n : Nat} {p : NativeProperty} {r : Reader} {i : UInt32}
    (found : r.getProperty i = some p) (section_ : r.deserializer = sectionAt b base n)
    (sound : r.Sound) (slot : p.offset + p.dataType.staticSize ≤ n) (behind : base + n ≤ at_) :
    ∀ {v : Written}, Typed all p v → FitsAt all base at_ p v → Holds all b base at_ p v →
      Reader.ReadsBack all r i p.dataType v
  | .null, _, _, holds => readsNull found section_ sound slot holds
  | .bool value, typed, _, holds => by
    have type : p.dataType = .bool := typed
    have lt : p.offset < n := by rw [type] at slot; exact slot
    have read := readBool_slot (n := n) holds lt
    have value_ : (if (if value then trueBool else falseBool) = falseBool then some false
        else if (if value then trueBool else falseBool) = trueBool then some true else none) =
        some value := by
      cases value <;> rfl
    rw [value_] at read
    refine ⟨?_, ?_⟩
    · rw [Reader.readBool, Reader.readAt_eq found type, section_, read]
    · rw [Reader.isNull_eq found, section_, type]
      simp only [isNull, read, Option.map_some, Option.isNone_some]
  | .byte value, typed, _, holds => by
    have type : p.dataType = .byte := typed
    have lt : p.offset < n := by rw [type] at slot; exact slot
    refine ⟨?_, ?_⟩
    · rw [Reader.readByte, Reader.readAt_eq found type, section_, readByte_slot holds lt]
    · rw [Reader.isNull_eq found, section_, type]
      simp only [isNull, containsOffset_of_lt lt, Bool.not_true]
  | .int value, typed, _, holds => by
    have type : p.dataType = .int := typed
    have lt : p.offset < n := by
      have := p.dataType.staticSize_pos
      omega
    have read := readInt_slot (n := n) holds lt
    refine ⟨?_, ?_⟩
    · rw [Reader.readInt, Reader.readAt_eq found type, section_, read]
    · rw [Reader.isNull_eq found, section_, type]
      simp only [isNull, read, Option.map_some]
  | .float value, typed, _, holds => by
    have type : p.dataType = .float := typed
    have lt : p.offset < n := by
      have := p.dataType.staticSize_pos
      omega
    have read := readFloat_slot (n := n) holds lt
    refine ⟨?_, ?_⟩
    · rw [Reader.readFloat, Reader.readAt_eq found type, section_, read]
    · rw [Reader.isNull_eq found, section_, type]
      simp only [isNull, read, Option.map_some]
  | .long value, typed, _, holds => by
    have type : p.dataType = .long := typed
    have lt : p.offset < n := by
      have := p.dataType.staticSize_pos
      omega
    have read := readLong_slot (n := n) holds lt
    refine ⟨?_, ?_⟩
    · rw [Reader.readLong, Reader.readAt_eq found type, section_, read]
    · rw [Reader.isNull_eq found, section_, type]
      simp only [isNull, read, Option.map_some]
  | .double value, typed, _, holds => by
    have type : p.dataType = .double := typed
    have lt : p.offset < n := by
      have := p.dataType.staticSize_pos
      omega
    have read := readDouble_slot (n := n) holds lt
    refine ⟨?_, ?_⟩
    · rw [Reader.readDouble, Reader.readAt_eq found type, section_, read]
    · rw [Reader.isNull_eq found, section_, type]
      simp only [isNull, read, Option.map_some]
  | .string value, typed, fits, holds => by
    have size : p.dataType.staticSize = 3 := by
      rcases typed with eq | eq <;> rw [eq] <;> rfl
    have read := holds.readDynamic fits.1 fits.2 slot behind size
    refine ⟨?_, ?_⟩
    · rw [Reader.readString_eq found sound typed, section_, read]
    · exact isNull_behind found section_ holds.1 fits.1 slot behind size holds.2.1 fits.2
  | .byteList value, typed, fits, holds => by
    have type : p.dataType = .byteList := typed
    have size : p.dataType.staticSize = 3 := by rw [type]; rfl
    have read := holds.readDynamic fits.1 fits.2 slot behind size
    refine ⟨?_, ?_⟩
    · rw [Reader.readBlob_eq found sound type, section_, read]
    · exact isNull_behind found section_ holds.1 fits.1 slot behind size holds.2.1 fits.2
  | .object writes, typed, fits, holds => by
    obtain ⟨type, -, c, target, fields⟩ := typed
    have size : p.dataType.staticSize = 3 := by rw [type]; rfl
    have mem := mem_of_embedded target
    have laidC := WriterImpl.laid_object (laid c mem)
    simp only [Holds, target] at holds
    simp only [FitsAt, target] at fits
    obtain ⟨⟨offset, header, inside, zero⟩, inner⟩ := holds
    have start : base + (at_ - base) = at_ := by omega
    have opened := readNested_slot (n := n) offset fits.1 (by omega) (by omega) (by rwa [start])
      fits.2.1
    rw [start, ← section_] at opened
    refine ⟨isNull_behind found section_ offset fits.1 slot behind size header fits.2.1,
      _, Reader.readObject_eq found type target opened, ?_, ?_⟩
    · exact inner.readsAll laid (WriterImpl.exact_object c) laidC Int64.minValue trivial le_rfl
        fields fits.2.2
    · exact safe_section Int64.minValue laidC fields le_rfl fits.2.2 inner zero
  | .list length writes, typed, fits, holds => by
    obtain ⟨complete, t, elements, fields⟩ := typed
    have size := staticSize_of_elementType elements
    have laidL := WriterImpl.laid_list t p.embeddedCollectionIndex length
    simp only [Holds, elements] at holds
    simp only [FitsAt, elements] at fits
    obtain ⟨⟨offset, header, inside, zero⟩, inner⟩ := holds
    have start : base + (at_ - base) = at_ := by omega
    have opened := readList_slot (n := n) offset fits.1 (by omega) (by omega) (by rwa [start])
      fits.2.1
    rw [start, ← section_] at opened
    refine ⟨isNull_behind found section_ offset fits.1 slot behind size header fits.2.1,
      _, Reader.readList_eq found sound elements opened, ?_, ?_⟩
    · exact inner.readsAll laid (WriterImpl.exact_list (lt_trans fits.2.1 (by decide))) laidL 0
        (Reader.sound_list elements) le_rfl fields fits.2.2
    · exact safe_section 0 laidL fields le_rfl fits.2.2 inner zero

theorem HoldsAll.readsAll (laid : ∀ c ∈ all, c.Laid)
    {base : Nat} {w : WriterImpl}
    (exact_ : w.Exact) (laidW : w.Laid) (id : Int64)
    (sound : (w.reader id (sectionAt b base w.staticSize)).Sound) :
    ∀ {writes : List (UInt32 × Written)} {at_ : Nat}, base + w.staticSize ≤ at_ →
      TypedAll all w writes → FitsAll all base at_ w writes → HoldsAll all b base at_ w writes →
      Reader.ReadsAll all (w.reader id (sectionAt b base w.staticSize)) writes
  | [], _, _, _, _, _ => trivial
  | (i, v) :: writes, at_, behind, typed, fits, holds => by
    obtain ⟨⟨addressed, p, found, typed⟩, fields⟩ := typed
    simp only [HoldsAll, found] at holds
    simp only [FitsAll, found] at fits
    have property := getProperty_reader id (sectionAt b base w.staticSize) exact_ addressed found
    refine ⟨⟨p, property, ?_⟩, ?_⟩
    · exact holds.1.readsBack laid property (deserializer_reader ..) sound
        (laidW.inside i p found) behind typed fits.1
    · exact holds.2.readsAll laid exact_ laidW id sound (by omega) fields fits.2

end

end

end IsarPlus.Native
