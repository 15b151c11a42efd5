import IsarPlus.Native.StoredValues
import IsarPlus.Native.Proofs.ObjectLimit

/-!
# Values of unwritten slots

A slot that no write has reached holds zeros, and so its object has the same bytes as one in which
the zero value was written to it.
-/

namespace IsarPlus.Native
open ByteBuffer Scalar
open Sqlite (Written)

/-! ## Zeros -/

section
variable {all : List NativeCollection} {p : NativeProperty}

theorem typed_zeroValue : Typed all p (zeroValue p.dataType) := by
  cases type : p.dataType <;> first
    | exact type
    | exact trivial

theorem whole_zeroValue (t : DataType) : Whole all p (zeroValue t) := by
  cases t <;> exact trivial

theorem dynamicSize_zeroValue (t : DataType) : dynamicSize all p (zeroValue t) = 0 := by
  cases t <;> rfl

theorem fitsAt_zeroValue (base at_ : Nat) (t : DataType) :
    FitsAt all base at_ p (zeroValue t) := by
  cases t <;> exact trivial

theorem holds_zeroValue {b : Bytes} {base at_ : Nat}
    (zero : At b (base + p.offset) (List.replicate p.dataType.staticSize 0)) :
    Holds all b base at_ p (zeroValue p.dataType) := by
  cases type : p.dataType <;> rw [type] at zero <;> first
    | exact zero
    | (show At b (base + p.offset) (nullBytes p.dataType)
       rw [type]
       exact zero)

end

/-! ## Objects and the values that were not written -/

/-- The properties that are not among the written ones, with their zero values. -/
def NativeCollection.unwritten (c : NativeCollection) (indexes : List UInt32) :
    List (UInt32 × Written) :=
  (c.properties.zipIdx.map fun e => (UInt32.ofNat (e.2 + 1), zeroValue e.1.2.dataType)).filter
    fun e => decide (e.1 ∉ indexes)

section
variable {c : NativeCollection} {indexes : List UInt32} {i : UInt32} {v : Written}

theorem mem_unwritten (few : c.properties.length < 2 ^ 16) : (i, v) ∈ c.unwritten indexes ↔
    i ∉ indexes ∧ ∃ p, (WriterImpl.object c).property i = some p ∧ v = zeroValue p.dataType := by
  unfold NativeCollection.unwritten
  rw [List.mem_filter, decide_eq_true_eq, and_comm]
  refine and_congr_right fun _ => ?_
  constructor
  · intro mem
    obtain ⟨⟨⟨name, p⟩, k⟩, there, eq⟩ := List.mem_map.mp mem
    cases eq
    have there := List.mem_zipIdx_iff_getElem?.mp there
    have lt := (List.getElem?_eq_some_iff.mp there).1
    simp only at lt
    have width : (UInt32.ofNat (k + 1)).toNat = k + 1 :=
      UInt32.toNat_ofNat_of_lt' (show k + 1 < 2 ^ 32 by omega)
    refine ⟨p, WriterImpl.property_object.mpr ⟨fun zero => ?_, name, ?_⟩, rfl⟩
    · rw [zero] at width
      cases width
    · rw [width]
      exact there
  · rintro ⟨p, found, rfl⟩
    obtain ⟨positive, name, there⟩ := WriterImpl.property_object.mp found
    refine List.mem_map.mpr ⟨((name, p), i.toNat - 1), List.mem_zipIdx_iff_getElem?.mpr there, ?_⟩
    have ne : i.toNat ≠ 0 := fun eq => positive (UInt32.toNat_inj.mp eq)
    have back : UInt32.ofNat (i.toNat - 1 + 1) = i := by
      rw [Nat.sub_add_cancel (Nat.pos_of_ne_zero ne)]
      exact UInt32.ofNat_toNat
    exact Prod.ext back rfl

theorem nodup_unwritten (few : c.properties.length < 2 ^ 16) :
    ((c.unwritten indexes).map Prod.fst).Nodup := by
  unfold NativeCollection.unwritten
  refine (List.Sublist.map _ List.filter_sublist).nodup ?_
  rw [List.map_map]
  have places : (c.properties.zipIdx.map Prod.snd).Nodup := by
    rw [List.zipIdx_map_snd]
    exact List.nodup_range'
  refine List.Nodup.map_on ?_ (List.Nodup.of_map _ places)
  intro e memE e' memE' same
  obtain ⟨x, k⟩ := e
  obtain ⟨x', k'⟩ := e'
  have there := List.mem_zipIdx_iff_getElem?.mp memE
  have there' := List.mem_zipIdx_iff_getElem?.mp memE'
  have lt := (List.getElem?_eq_some_iff.mp there).1
  have lt' := (List.getElem?_eq_some_iff.mp there').1
  simp only at lt lt'
  have same := congrArg UInt32.toNat same
  simp only [Function.comp_apply] at same
  rw [UInt32.toNat_ofNat_of_lt' (show k + 1 < 2 ^ 32 by omega),
    UInt32.toNat_ofNat_of_lt' (show k' + 1 < 2 ^ 32 by omega)] at same
  obtain rfl : k = k' := by omega
  simp only at there there'
  cases there.symm.trans there'
  rfl

end

/-! ## Completed trees -/

section
variable (all : List NativeCollection)

mutual

/-- The tree with the zero values of all properties that were not written. -/
def completed (p : NativeProperty) : Written → Written
  | .object writes =>
    match p.embedded all with
    | some c =>
      .object (completedAll (.object c) writes ++ c.unwritten (writes.map Prod.fst))
    | none => .object writes
  | .list length writes =>
    match p.dataType.elementType with
    | some elementType =>
      .list length (completedAll (.list elementType p.embeddedCollectionIndex length) writes)
    | none => .list length writes
  | value => value

def completedAll (w : WriterImpl) : List (UInt32 × Written) → List (UInt32 × Written)
  | [] => []
  | (index, value) :: writes =>
    (index, match w.property index with
      | some p => completed p value
      | none => value) :: completedAll w writes

end

end

section
variable {all : List NativeCollection}

theorem map_fst_completedAll (w : WriterImpl) (writes : List (UInt32 × Written)) :
    (completedAll all w writes).map Prod.fst = writes.map Prod.fst := by
  induction writes with
  | nil => rfl
  | cons write writes ih =>
    rw [completedAll, List.map_cons, List.map_cons, ih]

theorem dynamicSizeAll_append (w : WriterImpl) (xs ys : List (UInt32 × Written)) :
    dynamicSizeAll all w (xs ++ ys) = dynamicSizeAll all w xs + dynamicSizeAll all w ys := by
  induction xs with
  | nil => simp [dynamicSizeAll]
  | cons x xs ih =>
    rw [List.cons_append, dynamicSizeAll, dynamicSizeAll, ih, Nat.add_assoc]

theorem typedAll_append {w : WriterImpl} {xs ys : List (UInt32 × Written)} :
    TypedAll all w (xs ++ ys) ↔ TypedAll all w xs ∧ TypedAll all w ys := by
  induction xs with
  | nil => simp [TypedAll]
  | cons x xs ih =>
    simp only [List.cons_append, TypedAll, ih, and_assoc]

theorem wholeAll_append {w : WriterImpl} {xs ys : List (UInt32 × Written)} :
    WholeAll all w (xs ++ ys) ↔ WholeAll all w xs ∧ WholeAll all w ys := by
  induction xs with
  | nil => simp [WholeAll]
  | cons x xs ih =>
    rw [List.cons_append, WholeAll, WholeAll, ih, and_assoc]

theorem fitsAll_append {w : WriterImpl} {base at_ : Nat} {xs ys : List (UInt32 × Written)} :
    FitsAll all base at_ w (xs ++ ys) ↔
      FitsAll all base at_ w xs ∧ FitsAll all base (at_ + dynamicSizeAll all w xs) w ys := by
  induction xs generalizing at_ with
  | nil => simp [FitsAll, dynamicSizeAll]
  | cons x xs ih =>
    rw [List.cons_append, FitsAll, FitsAll, dynamicSizeAll]
    cases w.property x.1 with
    | none => simp only [ih, Nat.zero_add]
    | some p => simp only [ih, and_assoc, Nat.add_assoc]

theorem holdsAll_append {w : WriterImpl} {b : Bytes} {base at_ : Nat}
    {xs ys : List (UInt32 × Written)} : HoldsAll all b base at_ w (xs ++ ys) ↔
      HoldsAll all b base at_ w xs ∧ HoldsAll all b base (at_ + dynamicSizeAll all w xs) w ys := by
  induction xs generalizing at_ with
  | nil => simp [HoldsAll, dynamicSizeAll]
  | cons x xs ih =>
    rw [List.cons_append, HoldsAll, HoldsAll, dynamicSizeAll]
    cases w.property x.1 with
    | none => simp only [ih, Nat.zero_add]
    | some p => simp only [ih, and_assoc, Nat.add_assoc]

theorem whole_of_mem {w : WriterImpl} {writes : List (UInt32 × Written)} {i : UInt32} {v : Written}
    {p : NativeProperty} (whole : WholeAll all w writes) (mem : (i, v) ∈ writes)
    (found : w.property i = some p) : Whole all p v := by
  induction writes with
  | nil => cases mem
  | cons write writes ih =>
    obtain ⟨⟨q, found', own⟩, rest⟩ := whole
    rcases List.mem_cons.mp mem with rfl | mem
    · cases found.symm.trans found'
      exact own
    · exact ih rest mem

/-! ## Lists of zero values -/

/-- Zero values of properties of the writer. -/
def Zeros (w : WriterImpl) (zeros : List (UInt32 × Written)) : Prop :=
  ∀ z ∈ zeros, w.Addresses z.1 ∧ ∃ p, w.property z.1 = some p ∧ z.2 = zeroValue p.dataType

namespace Zeros

variable {w : WriterImpl} {zeros : List (UInt32 × Written)}

theorem typedAll (h : Zeros w zeros) : TypedAll all w zeros := by
  induction zeros with
  | nil => trivial
  | cons z zeros ih =>
    obtain ⟨⟨addressed, p, found, eq⟩, rest⟩ := List.forall_mem_cons.mp h
    refine ⟨⟨addressed, p, found, ?_⟩, ih rest⟩
    rw [eq]
    exact typed_zeroValue

theorem wholeAll (h : Zeros w zeros) : WholeAll all w zeros := by
  induction zeros with
  | nil => trivial
  | cons z zeros ih =>
    obtain ⟨⟨-, p, found, eq⟩, rest⟩ := List.forall_mem_cons.mp h
    refine ⟨⟨p, found, ?_⟩, ih rest⟩
    rw [eq]
    exact whole_zeroValue _

theorem dynamicSizeAll_eq (h : Zeros w zeros) : dynamicSizeAll all w zeros = 0 := by
  induction zeros with
  | nil => rfl
  | cons z zeros ih =>
    obtain ⟨⟨-, p, found, eq⟩, rest⟩ := List.forall_mem_cons.mp h
    rw [dynamicSizeAll, found, eq, ih rest]
    exact dynamicSize_zeroValue _

theorem fitsAll (h : Zeros w zeros) (base at_ : Nat) : FitsAll all base at_ w zeros := by
  induction zeros generalizing at_ with
  | nil => trivial
  | cons z zeros ih =>
    obtain ⟨⟨-, p, found, eq⟩, rest⟩ := List.forall_mem_cons.mp h
    rw [FitsAll, found, eq]
    exact ⟨fitsAt_zeroValue base at_ _, ih rest _⟩

theorem holdsAll (h : Zeros w zeros) {b : Bytes} {base at_ : Nat}
    (zero : ∀ z ∈ zeros, ∀ p, w.property z.1 = some p →
      At b (base + p.offset) (List.replicate p.dataType.staticSize 0)) :
    HoldsAll all b base at_ w zeros := by
  induction zeros generalizing at_ with
  | nil => trivial
  | cons z zeros ih =>
    obtain ⟨⟨-, p, found, eq⟩, rest⟩ := List.forall_mem_cons.mp h
    obtain ⟨stands, others⟩ := List.forall_mem_cons.mp zero
    rw [HoldsAll, found, eq]
    exact ⟨holds_zeroValue (stands p found), ih rest others⟩

end Zeros

theorem zeros_unwritten {c : NativeCollection} (few : c.properties.length < 2 ^ 16)
    (indexes : List UInt32) : Zeros (.object c) (c.unwritten indexes) := by
  intro z mem
  obtain ⟨-, p, found, eq⟩ := (mem_unwritten few).mp mem
  refine ⟨?_, p, found, eq⟩
  obtain ⟨-, name, there⟩ := WriterImpl.property_object.mp found
  have lt := (List.getElem?_eq_some_iff.mp there).1
  show z.1.toNat < 2 ^ 16
  omega

/-! ## Whole trees -/

mutual

theorem dynamicSize_completed (few : ∀ c ∈ all, c.properties.length < 2 ^ 16)
    (p : NativeProperty) :
    ∀ v : Written, dynamicSize all p (completed all p v) = dynamicSize all p v
  | .object writes => by
    cases target : p.embedded all with
    | none => simp only [completed, target]
    | some c =>
      have zeros := zeros_unwritten (few c (mem_of_embedded target)) (writes.map Prod.fst)
      simp only [completed, target, dynamicSize, dynamicSizeAll_append, zeros.dynamicSizeAll_eq,
        Nat.add_zero, dynamicSizeAll_completed few]
  | .list length writes => by
    cases elements : p.dataType.elementType with
    | none => simp only [completed, elements]
    | some t => simp only [completed, elements, dynamicSize, dynamicSizeAll_completed few]
  | .null | .bool _ | .byte _ | .int _ | .float _ | .long _ | .double _ | .string _
  | .byteList _ => rfl

theorem dynamicSizeAll_completed (few : ∀ c ∈ all, c.properties.length < 2 ^ 16)
    (w : WriterImpl) : ∀ writes : List (UInt32 × Written),
    dynamicSizeAll all w (completedAll all w writes) = dynamicSizeAll all w writes
  | [] => rfl
  | (index, value) :: writes => by
    rw [completedAll, dynamicSizeAll, dynamicSizeAll, dynamicSizeAll_completed few w writes]
    cases w.property index with
    | none => rfl
    | some p => simp only [dynamicSize_completed few p value]

end

/-- Every property of the collection is among the written and the unwritten ones. -/
theorem mem_completed {c : NativeCollection} (few : c.properties.length < 2 ^ 16)
    (writes : List (UInt32 × Written)) {i : UInt32} {p : NativeProperty}
    (found : (WriterImpl.object c).property i = some p) :
    i ∈ (completedAll all (.object c) writes ++ c.unwritten (writes.map Prod.fst)).map Prod.fst := by
  rw [List.map_append, map_fst_completedAll, List.mem_append]
  by_cases written : i ∈ writes.map Prod.fst
  · exact Or.inl written
  · refine Or.inr (List.mem_map.mpr ⟨(i, zeroValue p.dataType), ?_, rfl⟩)
    exact (mem_unwritten few).mpr ⟨written, p, found, rfl⟩

theorem nodup_completed {c : NativeCollection} (few : c.properties.length < 2 ^ 16)
    {writes : List (UInt32 × Written)} (nodup : (writes.map Prod.fst).Nodup) :
    ((completedAll all (.object c) writes ++ c.unwritten (writes.map Prod.fst)).map
      Prod.fst).Nodup := by
  rw [List.map_append, map_fst_completedAll]
  refine List.nodup_append.mpr ⟨nodup, nodup_unwritten few, ?_⟩
  rintro i written j mem rfl
  obtain ⟨⟨i, v⟩, there, rfl⟩ := List.mem_map.mp mem
  exact ((mem_unwritten few).mp there).1 written

mutual

theorem typed_completed (few : ∀ c ∈ all, c.properties.length < 2 ^ 16) {p : NativeProperty} :
    ∀ {v : Written}, Typed all p v → Typed all p (completed all p v)
  | .object writes, typed => by
    obtain ⟨type, nodup, c, target, fields⟩ := typed
    have fewC := few c (mem_of_embedded target)
    rw [completed, target]
    refine ⟨type, nodup_completed fewC nodup, c, target, typedAll_append.mpr ⟨?_, ?_⟩⟩
    · exact typedAll_completed few fields
    · exact (zeros_unwritten fewC _).typedAll
  | .list length writes, typed => by
    obtain ⟨complete, t, elements, fields⟩ := typed
    rw [completed, elements]
    refine ⟨?_, t, elements, typedAll_completed few fields⟩
    unfold Complete
    rw [map_fst_completedAll]
    exact complete
  | .null, typed | .bool _, typed | .byte _, typed | .int _, typed | .float _, typed
  | .long _, typed | .double _, typed | .string _, typed | .byteList _, typed => typed

theorem typedAll_completed (few : ∀ c ∈ all, c.properties.length < 2 ^ 16) {w : WriterImpl} :
    ∀ {writes : List (UInt32 × Written)}, TypedAll all w writes →
      TypedAll all w (completedAll all w writes)
  | [], _ => trivial
  | (index, value) :: writes, typed => by
    obtain ⟨⟨addressed, p, found, typed⟩, fields⟩ := typed
    rw [completedAll, found]
    exact ⟨⟨addressed, p, found, typed_completed few typed⟩, typedAll_completed few fields⟩

end

mutual

theorem whole_completed (few : ∀ c ∈ all, c.properties.length < 2 ^ 16) {p : NativeProperty} :
    ∀ {v : Written}, Typed all p v → Whole all p (completed all p v)
  | .object writes, typed => by
    obtain ⟨type, nodup, c, target, fields⟩ := typed
    have fewC := few c (mem_of_embedded target)
    rw [completed, target]
    refine ⟨c, target, fun index q found => mem_completed fewC writes found,
      wholeAll_append.mpr ⟨?_, ?_⟩⟩
    · exact wholeAll_completed few fields
    · exact (zeros_unwritten fewC _).wholeAll
  | .list length writes, typed => by
    obtain ⟨complete, t, elements, fields⟩ := typed
    rw [completed, elements]
    exact ⟨t, elements, wholeAll_completed few fields⟩
  | .null, _ | .bool _, _ | .byte _, _ | .int _, _ | .float _, _ | .long _, _ | .double _, _
  | .string _, _ | .byteList _, _ => trivial

theorem wholeAll_completed (few : ∀ c ∈ all, c.properties.length < 2 ^ 16) {w : WriterImpl} :
    ∀ {writes : List (UInt32 × Written)}, TypedAll all w writes →
      WholeAll all w (completedAll all w writes)
  | [], _ => trivial
  | (index, value) :: writes, typed => by
    obtain ⟨⟨addressed, p, found, typed⟩, fields⟩ := typed
    rw [completedAll, found]
    exact ⟨⟨p, found, whole_completed few typed⟩, wholeAll_completed few fields⟩

end

mutual

theorem fitsAt_completed (few : ∀ c ∈ all, c.properties.length < 2 ^ 16) {base at_ : Nat}
    {p : NativeProperty} :
    ∀ {v : Written}, FitsAt all base at_ p v → FitsAt all base at_ p (completed all p v)
  | .object writes, fits => by
    cases target : p.embedded all with
    | none =>
      rw [completed, target]
      exact fits
    | some c =>
      have zeros := zeros_unwritten (few c (mem_of_embedded target)) (writes.map Prod.fst)
      simp only [FitsAt, target] at fits
      simp only [completed, target, FitsAt]
      refine ⟨fits.1, fits.2.1, fitsAll_append.mpr ⟨?_, zeros.fitsAll _ _⟩⟩
      exact fitsAll_completed few fits.2.2
  | .list length writes, fits => by
    cases elements : p.dataType.elementType with
    | none =>
      rw [completed, elements]
      exact fits
    | some t =>
      simp only [FitsAt, elements] at fits
      simp only [completed, elements, FitsAt]
      exact ⟨fits.1, fits.2.1, fitsAll_completed few fits.2.2⟩
  | .null, fits | .bool _, fits | .byte _, fits | .int _, fits | .float _, fits
  | .long _, fits | .double _, fits | .string _, fits | .byteList _, fits => fits

theorem fitsAll_completed (few : ∀ c ∈ all, c.properties.length < 2 ^ 16) {base at_ : Nat}
    {w : WriterImpl} :
    ∀ {writes : List (UInt32 × Written)}, FitsAll all base at_ w writes →
      FitsAll all base at_ w (completedAll all w writes)
  | [], _ => trivial
  | (index, value) :: writes, fits => by
    rw [completedAll]
    cases found : w.property index with
    | none =>
      simp only [FitsAll, found] at fits ⊢
      exact fitsAll_completed few fits
    | some p =>
      simp only [FitsAll, found] at fits ⊢
      refine ⟨fitsAt_completed few fits.1, ?_⟩
      rw [dynamicSize_completed few]
      exact fitsAll_completed few fits.2

end

mutual

theorem Holds.completed (few : ∀ c ∈ all, c.properties.length < 2 ^ 16) {b : Bytes}
    {base at_ : Nat} {p : NativeProperty} :
    ∀ {v : Written}, Holds all b base at_ p v → Holds all b base at_ p (completed all p v)
  | .object writes, holds => by
    cases target : p.embedded all with
    | none =>
      rw [Native.completed, target]
      exact holds
    | some c =>
      have fewC := few c (mem_of_embedded target)
      simp only [Holds, target] at holds
      simp only [Native.completed, target, Holds]
      obtain ⟨⟨offset, header, inside, zero⟩, inner⟩ := holds
      refine ⟨⟨offset, header, inside, ?_⟩, holdsAll_append.mpr ⟨inner.completed few, ?_⟩⟩
      · intro index q absent found
        exact absurd (mem_completed fewC writes found) absent
      · refine (zeros_unwritten fewC _).holdsAll fun z mem q found => ?_
        exact zero z.1 q ((mem_unwritten fewC).mp mem).1 found
  | .list length writes, holds => by
    cases elements : p.dataType.elementType with
    | none =>
      rw [Native.completed, elements]
      exact holds
    | some t =>
      simp only [Holds, elements] at holds
      simp only [Native.completed, elements, Holds, map_fst_completedAll]
      exact ⟨holds.1, holds.2.completed few⟩
  | .null, holds | .bool _, holds | .byte _, holds | .int _, holds | .float _, holds
  | .long _, holds | .double _, holds | .string _, holds | .byteList _, holds => holds

theorem HoldsAll.completed (few : ∀ c ∈ all, c.properties.length < 2 ^ 16) {b : Bytes}
    {base at_ : Nat} {w : WriterImpl} :
    ∀ {writes : List (UInt32 × Written)}, HoldsAll all b base at_ w writes →
      HoldsAll all b base at_ w (completedAll all w writes)
  | [], _ => trivial
  | (index, value) :: writes, holds => by
    rw [completedAll]
    cases found : w.property index with
    | none =>
      simp only [HoldsAll, found] at holds ⊢
      exact holds.completed few
    | some p =>
      simp only [HoldsAll, found] at holds ⊢
      refine ⟨holds.1.completed few, ?_⟩
      rw [dynamicSize_completed few]
      exact holds.2.completed few

end

end

end IsarPlus.Native
