import IsarPlus.Native.ShownValues
import IsarPlus.Native.Proofs.WholeValues

/-!
# Written objects show their trees

A tree of writes reads back value by value; so the reader of the object shows the tree, with the
zero values of the properties that were not written.
-/

namespace IsarPlus.Native
open ByteBuffer Scalar
open Sqlite (Written)

/-! ## Lists of properties and elements -/

section
variable {all : List NativeCollection} {r : Reader} {i : UInt32} {p q : NativeProperty}
  {w : WriterImpl} {c : NativeCollection}

theorem showsProperties_zipIdx {α : Type} {f : α × Nat → String × DataType × ReadValue}
    {l : List α} {n : Nat} (h : ∀ e ∈ l.zipIdx n,
      Shows all r (UInt32.ofNat (e.2 + 1)) (f e).2.1 (f e).2.2) :
    ShowsProperties all r (n + 1) ((l.zipIdx n).map f) := by
  induction l generalizing n with
  | nil => trivial
  | cons a l ih =>
    rw [List.zipIdx_cons] at h ⊢
    exact ⟨h _ List.mem_cons_self, ih fun e mem => h e (List.mem_cons_of_mem _ mem)⟩

theorem showsElements_range' {t : DataType} {f : Nat → ReadValue} {n length : Nat}
    (h : ∀ k, n ≤ k → k < n + length → Shows all r (UInt32.ofNat k) t (f k)) :
    ShowsElements all r n t ((List.range' n length).map f) := by
  induction length generalizing n with
  | zero => trivial
  | succ length ih =>
    rw [List.range'_succ]
    refine ⟨h n le_rfl (by omega), ih fun k above below => h k (by omega) (by omega)⟩

theorem layout_arranged (c : NativeCollection) (values : List (UInt32 × ReadValue)) :
    (c.arranged values).map (fun p => (p.1, p.2.1)) =
      c.properties.map fun p => (p.1, p.2.dataType) := by
  unfold NativeCollection.arranged
  conv_rhs => rw [← List.zipIdx_map_fst 0 c.properties]
  rw [List.map_map, List.map_map]
  rfl

theorem showsProperties_arranged {values : List (UInt32 × ReadValue)}
    (few : c.properties.length < 2 ^ 16)
    (h : ∀ i p, (WriterImpl.object c).property i = some p →
      Shows all r i p.dataType ((values.lookup i).getD (blank p.dataType))) :
    ShowsProperties all r 1 (c.arranged values) := by
  refine showsProperties_zipIdx fun e mem => ?_
  obtain ⟨⟨name, p⟩, k⟩ := e
  have there := List.mem_zipIdx_iff_getElem?.mp mem
  have lt := (List.getElem?_eq_some_iff.mp there).1
  simp only at lt there
  have width : (UInt32.ofNat (k + 1)).toNat = k + 1 :=
    UInt32.toNat_ofNat_of_lt' (show k + 1 < 2 ^ 32 by omega)
  refine h _ p (WriterImpl.property_object.mpr ⟨fun zero => ?_, name, ?_⟩)
  · rw [zero] at width
    cases width
  · rw [width]
    exact there

/-! ## Trees of writes -/

theorem lookup_shownAll {writes : List (UInt32 × Written)} {v : Written}
    (nodup : (writes.map Prod.fst).Nodup) (mem : (i, v) ∈ writes) (found : w.property i = some p) :
    (shownAll all w writes).lookup i = some (shownValue all p v) := by
  induction writes with
  | nil => cases mem
  | cons write writes ih =>
    obtain ⟨j, u⟩ := write
    rw [List.map_cons, List.nodup_cons] at nodup
    rcases List.mem_cons.mp mem with same | mem
    · cases same
      rw [shownAll, found, List.lookup_cons_self]
    · have ne : i ≠ j := fun same => nodup.1 (same ▸ List.mem_map.mpr ⟨_, mem, rfl⟩)
      rw [shownAll]
      cases w.property j with
      | none => exact ih nodup.2 mem
      | some q =>
        rw [List.lookup_cons, beq_eq_false_iff_ne.mpr ne]
        exact ih nodup.2 mem

theorem lookup_shownAll_eq_none {writes : List (UInt32 × Written)}
    (absent : i ∉ writes.map Prod.fst) : (shownAll all w writes).lookup i = none := by
  induction writes with
  | nil => rfl
  | cons write writes ih =>
    obtain ⟨j, u⟩ := write
    rw [List.map_cons, List.mem_cons, not_or] at absent
    rw [shownAll]
    cases w.property j with
    | none => exact ih absent.2
    | some q =>
      rw [List.lookup_cons, beq_eq_false_iff_ne.mpr absent.1]
      exact ih absent.2

theorem lookup_shownAll_append {writes others : List (UInt32 × Written)} :
    (shownAll all w (writes ++ others)).lookup i =
      ((shownAll all w writes).lookup i).or ((shownAll all w others).lookup i) := by
  induction writes with
  | nil => rfl
  | cons write writes ih =>
    obtain ⟨j, u⟩ := write
    rw [List.cons_append, shownAll, shownAll]
    cases w.property j with
    | none => exact ih
    | some q =>
      rw [List.lookup_cons, List.lookup_cons]
      split
      · rfl
      · exact ih

theorem shownValue_zeroValue (p : NativeProperty) :
    shownValue all p (zeroValue p.dataType) = blank p.dataType := by
  cases type : p.dataType <;> simp only [zeroValue, blank, shownValue, shownNull, type]
  all_goals exact if_neg (by decide)

/-! ## Nested readers -/

/-- A blob is read as a list of its bytes. -/
theorem readBytes_of_readDynamic {d : IsarDeserializer} {offset : Nat} {value : Bytes}
    (read : d.readDynamic offset = some (some value)) : ∃ nested : IsarDeserializer,
      d.readList offset .byte = some (some (nested, value.length)) ∧
      nested.staticSize = value.length ∧ value.length < 2 ^ 24 ∧ At nested.bytes 0 value := by
  unfold IsarDeserializer.readDynamic IsarDeserializer.getOffsetLength at read
  cases found : d.getOffset offset with
  | none => simp [found] at read
  | some o =>
    cases o with
    | none => simp [found] at read
    | some o =>
      cases header : readU24 d.bytes o with
      | none => simp [found, header] at read
      | some length =>
        simp only [found, header, Option.bind_eq_bind, Option.bind_some, Option.pure_def,
          Option.bind_eq_some_iff, Option.some.injEq] at read
        obtain ⟨bytes, sliced, rfl⟩ := read
        obtain ⟨rfl, stands⟩ := slice_eq_some.mp sliced
        obtain ⟨three, sliced₃, number⟩ := Option.map_eq_some_iff.mp header
        obtain ⟨len, at₃⟩ := slice_eq_some.mp sliced₃
        have inside : o ≤ d.bytes.length := by
          have := at₃.bound
          omega
        have small : bytes.length < 2 ^ 24 := by
          have := leNat_lt three
          rw [len] at this
          omega
        have begins : At (d.bytes.drop o) 0 three := (at_drop inside).mpr at₃
        have opened : IsarDeserializer.fromBytes (d.bytes.drop o) =
            some ⟨(d.bytes.drop o).drop 3, bytes.length⟩ := by
          have header : readU24 (d.bytes.drop o) 0 = some bytes.length := by
            rw [← number, readU24, readLe, ← len]
            exact Option.map_eq_some_iff.mpr ⟨three, begins, rfl⟩
          simp only [IsarDeserializer.fromBytes, header, Option.bind_eq_bind, Option.bind_some,
            Option.pure_def]
        refine ⟨⟨(d.bytes.drop o).drop 3, bytes.length⟩, ?_, rfl, small, ?_⟩
        · simp only [IsarDeserializer.readList, IsarDeserializer.readNested, found, if_pos inside,
            opened, Option.bind_eq_bind, Option.bind_some, Option.pure_def, DataType.staticSize,
            Nat.div_one]
        · have three_le : 3 ≤ (d.bytes.drop o).length := by
            have := begins.bound
            omega
          rw [at_drop three_le, at_drop inside]
          exact stands

theorem readObject_eq_some {nested : Reader} (found : r.getProperty i = some q)
    (read : r.readObject all i = some (some nested)) :
    ∃ d c, nested = .object Int64.minValue d c ∧ q.embedded all = some c := by
  unfold Reader.readObject at read
  simp only [found] at read
  split at read
  · split at read
    · split at read
      · rename_i collectionIndex target
        obtain ⟨c, there, eq⟩ := Option.map_eq_some_iff.mp read
        cases eq
        refine ⟨_, c, rfl, ?_⟩
        simp only [NativeProperty.embedded, target, Option.bind_eq_bind, Option.bind_some, there]
      · cases read
    · cases read
    · cases read
  · cases read

theorem readList_eq_some {nested : Reader} {length : Nat} (found : r.getProperty i = some q)
    (read : r.readList i = some (some (nested, length))) :
    ∃ d t, nested = .list d t q.embeddedCollectionIndex ∧ q.dataType.elementType = some t := by
  cases r with
  | list d t e => simp [Reader.readList] at read
  | object id d c =>
    simp only [Reader.readList, found] at read
    split at read
    · rename_i t elements
      split at read
      · cases read
        exact ⟨_, t, rfl, elements⟩
      · cases read
      · cases read
    · cases read

/-- A reader and a writer that agree on what an index means, up to where it stands. -/
def Agrees (r : Reader) (w : WriterImpl) : Prop :=
  ∀ i p, w.Addresses i → w.property i = some p → ∃ q, r.getProperty i = some q ∧
    q.dataType = p.dataType ∧ q.embeddedCollectionIndex = p.embeddedCollectionIndex

theorem agrees_object (id : Int64) (d : IsarDeserializer) (c : NativeCollection) :
    Agrees (.object id d c) (.object c) := by
  intro i p addressed found
  exact ⟨p, WriterImpl.exact_object c i p addressed found, rfl, rfl⟩

theorem agrees_list (d : IsarDeserializer) (t : DataType) (e : Option UInt16) (length : UInt32) :
    Agrees (.list d t e) (.list t e length) := by
  intro i p _ found
  obtain ⟨-, rfl⟩ := WriterImpl.property_list.mp found
  exact ⟨_, rfl, rfl, rfl⟩

/-- A list of bytes, read one by one. -/
theorem showsElements_bytes {nested : IsarDeserializer} {e : Option UInt16} {value : Bytes}
    (size : nested.staticSize = value.length) (small : value.length < 2 ^ 24)
    (stands : At nested.bytes 0 value) :
    ShowsElements all (.list nested .byte e) 0 .byte (value.map .byte) := by
  obtain ⟨bound, same⟩ := at_iff.mp stands
  have values : value.map ReadValue.byte =
      (List.range' 0 value.length).map fun k => .byte (value.getD k 0) := by
    refine List.ext_getElem (by simp) fun k lt _ => ?_
    rw [List.length_map] at lt
    simp [List.getElem?_eq_getElem lt]
  rw [values]
  refine showsElements_range' fun k _ below => ?_
  have lt : k < value.length := by omega
  have width : (UInt32.ofNat k).toNat = k := UInt32.toNat_ofNat_of_lt' (show k < 2 ^ 32 by omega)
  have offset : (UInt32.ofNat k * UInt32.ofNat DataType.byte.staticSize).toNat = k := by
    rw [UInt32.toNat_mul, width]
    show k * 1 % 2 ^ 32 = k
    omega
  have contained : nested.containsOffset k = true := by
    rw [IsarDeserializer.containsOffset, size]
    exact decide_eq_true lt
  have byte : slice nested.bytes k 1 = some [value.getD k 0] := by
    refine slice_eq_some.mpr ⟨rfl, at_iff.mpr ⟨?_, fun j hj => ?_⟩⟩
    · rw [List.length_singleton]
      omega
    · rw [List.length_singleton] at hj
      obtain rfl : j = 0 := by omega
      have there := same k lt
      rw [Nat.zero_add] at there
      rw [Nat.add_zero, there]
      simp [List.getElem?_eq_getElem lt]
  refine ⟨rfl, ?_, ?_⟩
  · simp only [Reader.isNull, Reader.getProperty, Reader.deserializer, offset,
      IsarDeserializer.isNull, contained, Bool.not_true]
  · simp only [Reader.readByte, Reader.readAt, Reader.getProperty, Reader.deserializer, offset,
      if_true, IsarDeserializer.readByte, contained, byte, Option.map_some, List.headD_cons]

end

/-! ## What reads back shows -/

section
variable {all : List NativeCollection}

theorem showsNull_of_readsNull {r : Reader} {i : UInt32} {t : DataType}
    (reads : r.ReadsNull all i t) : Shows all r i t (shownNull t) := by
  obtain ⟨null, reads⟩ := reads
  cases t
  case byte => exact ⟨rfl, null, reads⟩
  case float => exact ⟨null, _, by decide, reads⟩
  case double => exact ⟨null, _, by decide, reads⟩
  case byteList => exact ⟨null, reads.2⟩
  all_goals exact ⟨null, reads⟩

mutual

/-- A value that reads back is shown. -/
theorem shows_of_readsBack (few : ∀ c ∈ all, c.properties.length < 2 ^ 16) {r : Reader}
    {i : UInt32} {p q : NativeProperty} (found : r.getProperty i = some q)
    (type : q.dataType = p.dataType)
    (target : q.embeddedCollectionIndex = p.embeddedCollectionIndex) :
    ∀ {v : Written}, Typed all p v → Whole all p v → r.ReadsBack all i p.dataType v →
      Shows all r i p.dataType (shownValue all p v)
  | .null, _, _, reads => showsNull_of_readsNull reads
  | .bool value, typed, _, reads => ⟨typed, reads.2, reads.1⟩
  | .byte value, typed, _, reads => ⟨typed, reads.2, reads.1⟩
  | .int value, typed, _, reads => by
    have typed : p.dataType = .int := typed
    rw [shownValue, shownInt, typed]
    by_cases null : value = nullInt
    · rw [if_pos null]
      exact ⟨by rw [reads.2, null]; rfl, reads.1.trans (congrArg some null)⟩
    · rw [if_neg null]
      exact ⟨rfl, null, by rw [reads.2, beq_eq_false_iff_ne.mpr null], reads.1⟩
  | .float value, typed, _, reads => by
    have typed : p.dataType = .float := typed
    rw [shownValue, shownFloat, typed]
    cases null : value.isNan with
    | true => exact ⟨by rw [reads.2, null], value, null, reads.1⟩
    | false => exact ⟨rfl, null, by rw [reads.2, null], reads.1⟩
  | .long value, typed, _, reads => by
    have typed : p.dataType = .long := typed
    rw [shownValue, shownLong, typed]
    by_cases null : value = nullLong
    · rw [if_pos null]
      exact ⟨by rw [reads.2, null]; rfl, reads.1.trans (congrArg some null)⟩
    · rw [if_neg null]
      exact ⟨rfl, null, by rw [reads.2, beq_eq_false_iff_ne.mpr null], reads.1⟩
  | .double value, typed, _, reads => by
    have typed : p.dataType = .double := typed
    rw [shownValue, shownDouble, typed]
    cases null : value.isNan with
    | true => exact ⟨by rw [reads.2, null], value, null, reads.1⟩
    | false => exact ⟨rfl, null, by rw [reads.2, null], reads.1⟩
  | .string value, typed, _, reads => ⟨typed, reads.2, reads.1⟩
  | .byteList value, typed, _, reads => by
    have typed : p.dataType = .byteList := typed
    obtain ⟨blob, null⟩ := reads
    rw [shownValue, typed]
    cases r with
    | list d t e => simp [Reader.readBlob] at blob
    | object id d c =>
      simp only [Reader.readBlob, Reader.readAt_eq found (type.trans typed)] at blob
      obtain ⟨nested, read, size, small, stands⟩ := readBytes_of_readDynamic blob
      refine ⟨null, .list nested .byte q.embeddedCollectionIndex, .byte, rfl, ?_,
        showsElements_bytes size small stands⟩
      rw [List.length_map]
      exact Reader.readList_eq found trivial (by rw [type, typed]; rfl) read
  | .object writes, typed, whole, reads => by
    obtain ⟨isObject, nodup, c, embedded, fields⟩ := typed
    obtain ⟨c', embedded', complete, wholes⟩ := whole
    cases embedded.symm.trans embedded'
    obtain ⟨null, nested, read, inner, -⟩ := reads
    obtain ⟨d, c', rfl, embedded'⟩ := readObject_eq_some found read
    rw [NativeProperty.embedded, target] at embedded'
    cases embedded.symm.trans embedded'
    have fewC := few c (mem_of_embedded embedded)
    simp only [shownValue, embedded, isObject]
    refine ⟨rfl, null, d, c, read, rfl, layout_arranged c _,
      showsProperties_arranged fewC fun j s there => ?_⟩
    obtain ⟨⟨j, v⟩, mem, rfl⟩ := List.mem_map.mp (complete j s there)
    rw [lookup_shownAll nodup mem there]
    exact shows_of_readsAll few (agrees_object _ d c) fields wholes inner mem there
  | .list length writes, typed, whole, reads => by
    obtain ⟨complete, t, elements, fields⟩ := typed
    obtain ⟨t', elements', wholes⟩ := whole
    cases elements.symm.trans elements'
    obtain ⟨null, nested, read, inner, -⟩ := reads
    obtain ⟨d, t', rfl, elements'⟩ := readList_eq_some found read
    rw [type] at elements'
    cases elements.symm.trans elements'
    rw [target] at read inner
    simp only [shownValue, elements]
    refine ⟨null, _, t, elements, by rw [List.length_map, List.length_range]; exact read, ?_⟩
    rw [List.range_eq_range']
    refine showsElements_range' fun k _ below => ?_
    have width : (UInt32.ofNat k).toNat = k :=
      UInt32.toNat_ofNat_of_lt' (show k < 2 ^ 32 by have := length.toNat_lt; omega)
    have inside : UInt32.ofNat k < length := by
      rw [UInt32.lt_iff_toNat_lt, width]
      omega
    have there : (WriterImpl.list t p.embeddedCollectionIndex length).property (UInt32.ofNat k) =
        some ⟨t, (UInt32.ofNat k).toNat * t.staticSize, p.embeddedCollectionIndex⟩ :=
      WriterImpl.property_list.mpr ⟨inside, rfl⟩
    obtain ⟨⟨j, v⟩, mem, eq⟩ := List.mem_map.mp (complete.2 _ inside)
    obtain rfl : j = UInt32.ofNat k := eq
    rw [lookup_shownAll complete.1 mem there]
    exact shows_of_readsAll few (agrees_list d t _ length) fields wholes inner mem there

theorem shows_of_readsAll (few : ∀ c ∈ all, c.properties.length < 2 ^ 16) {r : Reader}
    {w : WriterImpl} (agrees : Agrees r w) :
    ∀ {writes : List (UInt32 × Written)}, TypedAll all w writes → WholeAll all w writes →
      r.ReadsAll all writes → ∀ {i v p}, (i, v) ∈ writes → w.property i = some p →
        Shows all r i p.dataType (shownValue all p v)
  | [], _, _, _, _, _, _, mem, _ => by cases mem
  | (j, u) :: writes, typed, whole, reads, i, v, p, mem, there => by
    obtain ⟨⟨addressed, p', there', typedU⟩, typed⟩ := typed
    obtain ⟨⟨p'', there'', wholeU⟩, whole⟩ := whole
    obtain ⟨⟨q, found, readsU⟩, reads⟩ := reads
    cases there'.symm.trans there''
    rcases List.mem_cons.mp mem with same | mem
    · cases same
      cases there.symm.trans there'
      obtain ⟨q', found', type, target⟩ := agrees _ p addressed there
      cases found.symm.trans found'
      rw [type] at readsU
      exact shows_of_readsBack few found type target typedU wholeU readsU
    · exact shows_of_readsAll few agrees typed whole reads mem there

end

/-! ## Completed trees -/

theorem arranged_congr {c : NativeCollection} (few : c.properties.length < 2 ^ 16)
    {xs ys : List (UInt32 × ReadValue)} (same : ∀ i p, (WriterImpl.object c).property i = some p →
      (xs.lookup i).getD (blank p.dataType) = (ys.lookup i).getD (blank p.dataType)) :
    c.arranged xs = c.arranged ys := by
  refine List.map_congr_left fun e mem => ?_
  obtain ⟨⟨name, p⟩, k⟩ := e
  have there := List.mem_zipIdx_iff_getElem?.mp mem
  have lt := (List.getElem?_eq_some_iff.mp there).1
  simp only at lt there
  have width : (UInt32.ofNat (k + 1)).toNat = k + 1 :=
    UInt32.toNat_ofNat_of_lt' (show k + 1 < 2 ^ 32 by omega)
  have property : (WriterImpl.object c).property (UInt32.ofNat (k + 1)) = some p := by
    refine WriterImpl.property_object.mpr ⟨fun zero => ?_, name, ?_⟩
    · rw [zero] at width
      cases width
    · rw [width]
      exact there
  simp only [same _ p property]

theorem lookup_zeros {w : WriterImpl} {zeros : List (UInt32 × Written)} (h : Zeros w zeros)
    {i : UInt32} {p : NativeProperty} (found : w.property i = some p) :
    ((shownAll all w zeros).lookup i).getD (blank p.dataType) = blank p.dataType := by
  induction zeros with
  | nil => rfl
  | cons z zeros ih =>
    obtain ⟨j, v⟩ := z
    obtain ⟨⟨-, q, there, eq⟩, rest⟩ := List.forall_mem_cons.mp h
    have there : w.property j = some q := there
    have eq : v = zeroValue q.dataType := eq
    simp only [shownAll, there, eq, shownValue_zeroValue]
    by_cases same : i = j
    · subst same
      cases found.symm.trans there
      rw [List.lookup_cons_self, Option.getD_some]
    · rw [List.lookup_cons, beq_eq_false_iff_ne.mpr same]
      exact ih rest

mutual

/-- Zero values that are written show what the absent ones show. -/
theorem shownValue_completed (few : ∀ c ∈ all, c.properties.length < 2 ^ 16)
    (p : NativeProperty) :
    ∀ v : Written, shownValue all p (completed all p v) = shownValue all p v
  | .object writes => by
    cases target : p.embedded all with
    | none => simp only [completed, target]
    | some c =>
      have fewC := few c (mem_of_embedded target)
      simp only [completed, target, shownValue, arranged_completed few fewC writes]
  | .list length writes => by
    cases elements : p.dataType.elementType with
    | none => simp only [completed, elements]
    | some t => simp only [completed, elements, shownValue, shownAll_completed few _ writes]
  | .null | .bool _ | .byte _ | .int _ | .float _ | .long _ | .double _ | .string _
  | .byteList _ => rfl

theorem shownAll_completed (few : ∀ c ∈ all, c.properties.length < 2 ^ 16) (w : WriterImpl) :
    ∀ writes : List (UInt32 × Written),
      shownAll all w (completedAll all w writes) = shownAll all w writes
  | [] => rfl
  | (index, value) :: writes => by
    rw [completedAll, shownAll, shownAll, shownAll_completed few w writes]
    cases w.property index with
    | none => rfl
    | some p => simp only [shownValue_completed few p value]

theorem arranged_completed (few : ∀ c ∈ all, c.properties.length < 2 ^ 16)
    {c : NativeCollection} (fewC : c.properties.length < 2 ^ 16)
    (writes : List (UInt32 × Written)) :
    c.arranged (shownAll all (.object c)
        (completedAll all (.object c) writes ++ c.unwritten (writes.map Prod.fst))) =
      c.arranged (shownAll all (.object c) writes) := by
  refine arranged_congr fewC fun i p found => ?_
  rw [lookup_shownAll_append, shownAll_completed few _ writes]
  cases (shownAll all (.object c) writes).lookup i with
  | some value => rfl
  | none => exact lookup_zeros (zeros_unwritten fewC _) found

end

/-- An object that was written field by field shows its tree. -/
theorem NativeCollection.Encodes.shows {c : NativeCollection} {writes : List (UInt32 × Written)}
    {object : Bytes} {id : Int64} (laid : ∀ c ∈ all, c.Laid)
    (few : ∀ c ∈ all, c.properties.length < 2 ^ 16) (mem : c ∈ all)
    (typed : TypedAll all (.object c) writes) (nodup : (writes.map Prod.fst).Nodup)
    (fits : c.ObjectFits all writes) (encodes : c.Encodes all writes object) :
    c.Shows all id object (c.writtenReader all id writes) := by
  have fewC := few c mem
  have zeros := zeros_unwritten fewC (writes.map Prod.fst)
  have typed' := typedAll_append.mpr ⟨typedAll_completed few typed, zeros.typedAll⟩
  have whole' := wholeAll_append.mpr ⟨wholeAll_completed few typed, zeros.wholeAll⟩
  have nodup' := @nodup_completed all c fewC writes nodup
  have fits' := fitsAll_append.mpr ⟨fitsAll_completed few fits.2, zeros.fitsAll 3 _⟩
  have holds' := holdsAll_append.mpr ⟨encodes.holds.completed few,
    zeros.holdsAll fun z there q found =>
      encodes.zero z.1 q ((mem_unwritten fewC).mp there).1 found⟩
  have laidW := WriterImpl.laid_object (laid c mem)
  have reads := holds'.readsAll laid (WriterImpl.exact_object c) laidW id trivial le_rfl typed' fits'
  refine ⟨rfl, rfl, layout_arranged c _, _, reader_eq encodes fits.1, ?_⟩
  show ShowsProperties all _ 1 (c.arranged (shownAll all (.object c) writes))
  rw [← arranged_completed few fewC writes]
  refine showsProperties_arranged fewC fun i p found => ?_
  obtain ⟨⟨j, v⟩, written, rfl⟩ := List.mem_map.mp (@mem_completed all c fewC writes i p found)
  rw [lookup_shownAll nodup' written found]
  exact shows_of_readsAll few (agrees_object id _ c) typed' whole' reads written found

end

end IsarPlus.Native
