import IsarPlus.Native.Evolution
import IsarPlus.Native.Proofs.StoredValues
import IsarPlus.Native.Proofs.WholeValues

/-!
# The values of written objects

An object that was written field by field has a value for every property of its collection.
-/

namespace IsarPlus.Native
open ByteBuffer
open Sqlite (Written)

/-! ## Names -/

theorem Opened.nodup_names {schemas : List IsarSchema} {schema : IsarSchema}
    {col : NativeCollection} (verified : IsarSchema.verifySchemas schemas = .ok ())
    (mem : schema ∈ schemas) (opened : Opened schema col) :
    (col.properties.map Prod.fst).Nodup := by
  have names := (IsarSchema.verified_of_verifySchemas verified schema mem).properties
  have nodup := opened.names.nodup_iff.mpr (IsarSchema.nodup_named names)
  rw [← List.map_map] at nodup
  exact List.Nodup.of_map some nodup

theorem Database.Laid.nodup_names {d : Database} {c : NativeCollection} (laid : d.Laid)
    (mem : c ∈ d.collections) : (c.properties.map Prod.fst).Nodup := by
  obtain ⟨schemas, verified, schema, listed, opened⟩ := laid.opened c mem
  exact opened.nodup_names verified listed

section
variable {c : NativeCollection} {i j : UInt32} {name : String} {p q : NativeProperty}

/-- A property with its name, by its index. -/
theorem NativeCollection.knows_iff : c.Knows i name ↔
    ∃ p, (WriterImpl.object c).property i = some p ∧ c.properties[i.toNat - 1]? = some (name, p) := by
  constructor
  · rintro ⟨positive, named⟩
    obtain ⟨⟨_, p⟩, there, rfl⟩ := Option.map_eq_some_iff.mp named
    exact ⟨p, WriterImpl.property_object.mpr ⟨positive, _, there⟩, there⟩
  · rintro ⟨p, found, there⟩
    exact ⟨(WriterImpl.property_object.mp found).1, by rw [there]; rfl⟩

theorem NativeCollection.exists_index (few : c.properties.length < 2 ^ 16)
    (mem : (name, p) ∈ c.properties) : ∃ i, (WriterImpl.object c).property i = some p ∧
      c.properties[i.toNat - 1]? = some (name, p) := by
  obtain ⟨k, there⟩ := List.mem_iff_getElem?.mp mem
  have lt := (List.getElem?_eq_some_iff.mp there).1
  have width : (UInt32.ofNat (k + 1)).toNat = k + 1 :=
    UInt32.toNat_ofNat_of_lt' (show k + 1 < 2 ^ 32 by omega)
  have there' : c.properties[(UInt32.ofNat (k + 1)).toNat - 1]? = some (name, p) := by
    rw [width]
    exact there
  refine ⟨_, WriterImpl.property_object.mpr ⟨fun zero => ?_, name, there'⟩, there'⟩
  rw [zero] at width
  cases width

/-- Different names have different indexes. -/
theorem NativeCollection.Knows.injective (names : (c.properties.map Prod.fst).Nodup)
    (knows : c.Knows i name) (knows' : c.Knows j name) : i = j := by
  have there := knows.2
  have there' := knows'.2
  rw [← List.getElem?_map] at there there'
  have lt := (List.getElem?_eq_some_iff.mp there).1
  have same : i.toNat - 1 = j.toNat - 1 :=
    (List.getElem?_inj lt names).mp (there.trans there'.symm)
  have positive : i.toNat ≠ 0 := fun eq => knows.1 (UInt32.toNat_inj.mp eq)
  have positive' : j.toNat ≠ 0 := fun eq => knows'.1 (UInt32.toNat_inj.mp eq)
  exact UInt32.toNat_inj.mp (by omega)

end

/-! ## The values of a list of writes -/

section
variable (all : List NativeCollection)

/-- The values that a list of writes leaves, their dynamic bytes from `at_` on. -/
def storedValues (c : NativeCollection) : Nat → List (UInt32 × Written) → List StoredValue
  | _, [] => []
  | at_, (index, value) :: writes =>
    match c.properties[index.toNat - 1]? with
    | some (name, p) =>
      ⟨name, p, value, at_⟩ :: storedValues c (at_ + dynamicSize all p value) writes
    | none => storedValues c at_ writes

end

section
variable {all : List NativeCollection} {c : NativeCollection} {b : Bytes}

/-- What is true of every value among the writes. -/
structure StoredFrom (all : List NativeCollection) (c : NativeCollection) (b : Bytes) (at_ : Nat)
    (writes : List (UInt32 × Written)) (e : StoredValue) : Prop where
  stands : e.Stands all b c.staticSize
  behind : at_ ≤ e.at_
  written : ∃ index, (index, e.value) ∈ writes ∧ c.Knows index e.name ∧
    (WriterImpl.object c).property index = some e.property

theorem storedFrom_of_mem (laid : c.Laid) {writes : List (UInt32 × Written)} {at_ : Nat}
    (typed : TypedAll all (.object c) writes) (fits : FitsAll all 3 at_ (.object c) writes)
    (holds : HoldsAll all b 3 at_ (.object c) writes) (behind : 3 + c.staticSize ≤ at_)
    (inside : at_ + dynamicSizeAll all (.object c) writes ≤ b.length) :
    ∀ e ∈ storedValues all c at_ writes, StoredFrom all c b at_ writes e := by
  induction writes generalizing at_ with
  | nil => simp [storedValues]
  | cons write writes ih =>
    obtain ⟨index, value⟩ := write
    obtain ⟨⟨addressed, p, found, typed⟩, fields⟩ := typed
    obtain ⟨positive, name, there⟩ := WriterImpl.property_object.mp found
    simp only [FitsAll, found] at fits
    simp only [HoldsAll, found] at holds
    simp only [dynamicSizeAll, found] at inside
    have rest := ih fields fits.2 holds.2 (by omega) (by omega)
    simp only [storedValues, there]
    refine List.forall_mem_cons.mpr ⟨⟨?_, le_rfl, index, List.mem_cons_self, ?_, found⟩, ?_⟩
    · refine ⟨(WriterImpl.laid_object laid).inside index p found, typed, fits.1, holds.1, behind,
        ?_⟩
      show at_ + dynamicSize all p value ≤ b.length
      omega
    · exact NativeCollection.knows_iff.mpr ⟨p, found, there⟩
    · intro e mem
      obtain ⟨stands, behind', index', written, knows⟩ := rest e mem
      exact ⟨stands, by omega, index', List.mem_cons_of_mem _ written, knows⟩

theorem pairwise_storedValues (laid : c.Laid) (names : (c.properties.map Prod.fst).Nodup)
    {writes : List (UInt32 × Written)} {at_ : Nat} (nodup : (writes.map Prod.fst).Nodup)
    (typed : TypedAll all (.object c) writes) (fits : FitsAll all 3 at_ (.object c) writes)
    (holds : HoldsAll all b 3 at_ (.object c) writes) (behind : 3 + c.staticSize ≤ at_)
    (inside : at_ + dynamicSizeAll all (.object c) writes ≤ b.length) :
    (storedValues all c at_ writes).Pairwise fun e e' => e.Apart all e' := by
  induction writes generalizing at_ with
  | nil => exact List.Pairwise.nil
  | cons write writes ih =>
    obtain ⟨index, value⟩ := write
    obtain ⟨⟨addressed, p, found, typed⟩, fields⟩ := typed
    obtain ⟨positive, name, there⟩ := WriterImpl.property_object.mp found
    rw [List.map_cons, List.nodup_cons] at nodup
    simp only [FitsAll, found] at fits
    simp only [HoldsAll, found] at holds
    simp only [dynamicSizeAll, found] at inside
    have rest := storedFrom_of_mem laid fields fits.2 holds.2 (by omega) (by omega)
    simp only [storedValues, there]
    refine List.pairwise_cons.mpr ⟨fun e mem => ?_,
      ih nodup.2 fields fits.2 holds.2 (by omega) (by omega)⟩
    obtain ⟨-, behind', index', written, knows', found'⟩ := rest e mem
    have other : index ≠ index' := by
      rintro rfl
      exact nodup.1 (List.mem_map.mpr ⟨_, written, rfl⟩)
    refine ⟨fun same => other ?_, ?_, Or.inl behind'⟩
    · have same : name = e.name := same
      rw [← same] at knows'
      have knows : c.Knows index name := NativeCollection.knows_iff.mpr ⟨p, found, there⟩
      exact knows.injective names knows'
    · exact (WriterImpl.laid_object laid).apart index index' _ _ other found found'

theorem has_storedValues {writes : List (UInt32 × Written)} {at_ : Nat} {index : UInt32}
    {value : Written} {name : String} {p : NativeProperty} (written : (index, value) ∈ writes)
    (there : c.properties[index.toNat - 1]? = some (name, p)) :
    Has (storedValues all c at_ writes) name p value := by
  induction writes generalizing at_ with
  | nil => cases written
  | cons write writes ih =>
    obtain ⟨index', value'⟩ := write
    rcases List.mem_cons.mp written with own | written
    · cases own
      simp only [storedValues, there]
      exact ⟨at_, List.mem_cons_self⟩
    · rw [storedValues]
      split
      · obtain ⟨at', mem⟩ := ih written
        exact ⟨at', List.mem_cons_of_mem _ mem⟩
      · exact ih written

/-- A written object has a value for every property. -/
theorem NativeCollection.Encodes.contains (laid : c.Laid)
    (few : ∀ c ∈ all, c.properties.length < 2 ^ 16) (mem : c ∈ all)
    (names : (c.properties.map Prod.fst).Nodup) {writes : List (UInt32 × Written)}
    (nodup : (writes.map Prod.fst).Nodup) (typed : TypedAll all (.object c) writes)
    (fits : c.ObjectFits all writes) (encodes : c.Encodes all writes b) :
    ∃ values, Contains all b c.staticSize values ∧
      (∀ e ∈ values, Whole all e.property e.value) ∧
      ∀ name p, (name, p) ∈ c.properties → ∃ v, Has values name p v := by
  have fewC := few c mem
  have zeros := zeros_unwritten fewC (writes.map Prod.fst)
  have typed' := typedAll_append.mpr ⟨typedAll_completed few typed, zeros.typedAll⟩
  have fits' := fitsAll_append.mpr ⟨fitsAll_completed few fits.2, zeros.fitsAll 3 _⟩
  have holds' := holdsAll_append.mpr ⟨encodes.holds.completed few,
    zeros.holdsAll fun z there q found =>
      encodes.zero z.1 q ((mem_unwritten fewC).mp there).1 found⟩
  have whole := wholeAll_append.mpr ⟨wholeAll_completed few typed, zeros.wholeAll⟩
  have nodup' := @nodup_completed all c fewC writes nodup
  have size : dynamicSizeAll all (.object c) (completedAll all (.object c) writes ++
      c.unwritten (writes.map Prod.fst)) = dynamicSizeAll all (.object c) writes := by
    rw [dynamicSizeAll_append, zeros.dynamicSizeAll_eq, dynamicSizeAll_completed few, Nat.add_zero]
  have inside : 3 + c.staticSize + dynamicSizeAll all (.object c) (completedAll all (.object c)
      writes ++ c.unwritten (writes.map Prod.fst)) ≤ b.length := by
    rw [size, encodes.length]
    exact le_rfl
  have stored := storedFrom_of_mem laid typed' fits' holds' le_rfl inside
  refine ⟨storedValues all c (3 + c.staticSize) _, ⟨encodes.header, fits.1, by omega,
    fun e there => (stored e there).stands,
    pairwise_storedValues laid names nodup' typed' fits' holds' le_rfl inside⟩, ?_, ?_⟩
  · intro e there
    obtain ⟨-, -, index, written, -, found⟩ := stored e there
    exact whole_of_mem whole written found
  · intro name p there
    obtain ⟨index, found, at_⟩ := NativeCollection.exists_index fewC there
    obtain ⟨⟨_, v⟩, written, rfl⟩ := List.mem_map.mp (@mem_completed all c fewC writes _ _ found)
    exact ⟨v, has_storedValues written at_⟩

end

end IsarPlus.Native
