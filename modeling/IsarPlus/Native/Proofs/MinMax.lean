import IsarPlus.Lib.FloatOrder
import IsarPlus.Native.Aggregate
import IsarPlus.Native.Instance
import Mathlib

/-!
# Minimum and maximum

The least and the greatest value of a property over the objects of a query. A loop of
`aggregate_min_max` finds it if there is one beyond the value that the loop starts from.
-/

namespace IsarPlus

open Scalar

/-- The order of the values of one type. -/
def IsarValue.partialCmp : IsarValue → IsarValue → Option Ordering
  | .bool a, .bool b => some (cmp a b)
  | .integer a, .integer b => some (cmp a.toInt b.toInt)
  | .real a, .real b => a.partialCmp b
  | .string a, .string b => some (cmp a b)
  | _, _ => none

end IsarPlus

namespace IsarPlus.Native
open ByteBuffer Scalar

/-- The value of a property of an object, or its id; null is no value. -/
def aggregatedValue (property : Option NativeProperty) (o : QueryObject) :
    Option (Option IsarValue) :=
  match property with
  | some p =>
    match p.dataType with
    | .byte => (o.2.readByte p.offset).map fun v => some (.integer (Int64.ofInt v.toNat))
    | .int => (o.2.readInt p.offset).map fun v =>
        if v ≠ nullInt then some (.integer v.toInt64) else none
    | .float => (o.2.readFloat p.offset).map fun v => if v.isNan then none else some (.real v.toF64)
    | .long => (o.2.readLong p.offset).map fun v => if v ≠ nullLong then some (.integer v) else none
    | .double => (o.2.readDouble p.offset).map fun v => if v.isNan then none else some (.real v)
    | .string => (o.2.readStr p.offset).map (Option.map .string)
    | _ => some none
  | none => some (if o.1 ≠ nullLong then some (.integer o.1) else none)

/-- The result is the least of the values, or the greatest, and `none` if there are none. -/
def IsExtreme (aggregateMin : Bool) (values : List IsarValue) : Option IsarValue → Prop
  | none => values = []
  | some v => v ∈ values ∧
      ∀ w ∈ values, v.partialCmp w = some (minMaxCmp aggregateMin) ∨ v.partialCmp w = some .eq

/-- The value that the loop of a property starts from. -/
def startValue (property : Option NativeProperty) (aggregateMin : Bool) : IsarValue :=
  match property with
  | some p =>
    match p.dataType with
    | .byte => byteMinMax.toValue (byteMinMax.start aggregateMin)
    | .int => intMinMax.toValue (intMinMax.start aggregateMin)
    | .float => floatMinMax.toValue (floatMinMax.start aggregateMin)
    | .double => doubleMinMax.toValue (doubleMinMax.start aggregateMin)
    | .string => stringMinMax.toValue (stringMinMax.start aggregateMin)
    | _ => longMinMax.toValue (longMinMax.start aggregateMin)
  | none => longMinMax.toValue (longMinMax.start aggregateMin)

/-- One of the values is strictly beyond the start. -/
def BeyondStart (property : Option NativeProperty) (aggregateMin : Bool)
    (values : List IsarValue) : Prop :=
  ∃ v ∈ values, v.partialCmp (startValue property aggregateMin) = some (minMaxCmp aggregateMin)

/-! ## The loop -/

namespace MinMaxType

variable {α K : Type} [LinearOrder K] {T : MinMaxType α}

/-- A linear order behind the comparison of a type. The comparison only has to make sense of numbers,
which the start is one of; the values that are not null are among them. -/
structure Ranked (T : MinMaxType α) (K : Type) [LinearOrder K] where
  key : α → K
  IsNumber : α → Prop
  counted : α → Bool
  number_of_counted : ∀ {v}, counted v = true → IsNumber v
  number_start : ∀ aggregateMin, IsNumber (T.start aggregateMin)
  improves_iff : ∀ aggregateMin v m, IsNumber m →
    (T.improves aggregateMin v m = true ↔
      counted v = true ∧ cmp (key v) (key m) = minMaxCmp aggregateMin)
  partialCmp_eq : ∀ v w, IsNumber v → IsNumber w →
    (T.toValue v).partialCmp (T.toValue w) = some (cmp (key v) (key w))

theorem cmp_trans {x y z : K} {aggregateMin : Bool} (h : cmp x y = minMaxCmp aggregateMin)
    (h' : cmp y z = minMaxCmp aggregateMin) : cmp x z = minMaxCmp aggregateMin := by
  cases aggregateMin with
  | false =>
    exact (cmp_eq_gt_iff x z).mpr (((cmp_eq_gt_iff y z).mp h').trans ((cmp_eq_gt_iff x y).mp h))
  | true =>
    exact (cmp_eq_lt_iff x z).mpr (((cmp_eq_lt_iff x y).mp h).trans ((cmp_eq_lt_iff y z).mp h'))

theorem cmp_eq_of_not {x y : K} {aggregateMin : Bool} (h : ¬ cmp x y = minMaxCmp aggregateMin) :
    cmp y x = minMaxCmp aggregateMin ∨ cmp y x = .eq := by
  rw [← cmp_swap y x] at h
  generalize cmp y x = o at h
  cases o <;> cases aggregateMin <;> simp_all [minMaxCmp, Ordering.swap]

namespace Ranked

variable (R : T.Ranked K)

/-- What the loop has found after the values. -/
structure Found (aggregateMin : Bool) (values : List α) (found : α × Bool) : Prop where
  number : R.IsNumber found.1
  least : ∀ v ∈ values, R.counted v = true → ¬ cmp (R.key v) (R.key found.1) = minMaxCmp aggregateMin
  start : found.2 = false → found.1 = T.start aggregateMin
  value : found.2 = true → found.1 ∈ values ∧ R.counted found.1 = true ∧
    cmp (R.key found.1) (R.key (T.start aggregateMin)) = minMaxCmp aggregateMin

variable {R} {aggregateMin : Bool}

/-- One turn of the loop. -/
theorem Found.next {values : List α} {minMax : α} {hasValue : Bool}
    (h : R.Found aggregateMin values (minMax, hasValue)) (v : α) :
    R.Found aggregateMin (values ++ [v])
      (if T.improves aggregateMin v minMax then (v, true) else (minMax, hasValue)) := by
  have improves := R.improves_iff aggregateMin v minMax h.number
  split
  · rename_i better
    obtain ⟨counted, beyond⟩ := improves.mp better
    refine ⟨R.number_of_counted counted, fun w mem wCounted less => ?_, nofun, fun _ => ?_⟩
    · rcases List.mem_append.mp mem with old | new
      · exact h.least w old wCounted (cmp_trans less beyond)
      · obtain rfl := List.mem_singleton.mp new
        rw [cmp_self_eq_eq] at less
        cases aggregateMin <;> cases less
    · refine ⟨List.mem_append_right _ (List.mem_singleton_self v), counted, ?_⟩
      cases hasValue with
      | false =>
        have start : minMax = T.start aggregateMin := h.start rfl
        exact start ▸ beyond
      | true => exact cmp_trans beyond (h.value rfl).2.2
  · rename_i worse
    refine ⟨h.number, fun w mem wCounted less => ?_, h.start, fun has => ?_⟩
    · rcases List.mem_append.mp mem with old | new
      · exact h.least w old wCounted less
      · obtain rfl := List.mem_singleton.mp new
        exact worse (improves.mpr ⟨wCounted, less⟩)
    · obtain ⟨mem, rest⟩ := h.value has
      exact ⟨List.mem_append_left _ mem, rest⟩

theorem loop_append (aggregateMin : Bool) (values : List α) (v : α) :
    T.loop aggregateMin (values ++ [v]) =
      if T.improves aggregateMin v (T.loop aggregateMin values).1 then (v, true)
      else T.loop aggregateMin values := by
  unfold loop
  rw [List.foldl_append]
  rfl

theorem found_loop (aggregateMin : Bool) (values : List α) :
    R.Found aggregateMin values (T.loop aggregateMin values) := by
  induction values using List.reverseRecOn with
  | nil => exact ⟨R.number_start _, nofun, fun _ => rfl, nofun⟩
  | append_singleton values v ih =>
    rw [loop_append]
    exact ih.next v

/-- The loop is right unless it has values and none of them is beyond the start. -/
theorem minMax_exact (R : T.Ranked K) (aggregateMin : Bool) (values : List α) :
    IsExtreme aggregateMin ((values.filter R.counted).map T.toValue)
        (T.minMax aggregateMin values) ↔
      (values.filter R.counted).map T.toValue = [] ∨
        ∃ v ∈ (values.filter R.counted).map T.toValue,
          v.partialCmp (T.toValue (T.start aggregateMin)) = some (minMaxCmp aggregateMin) := by
  have found := found_loop (R := R) aggregateMin values
  unfold minMax
  generalize T.loop aggregateMin values = result at found
  obtain ⟨m, has⟩ := result
  have mem {v : α} : v ∈ values.filter R.counted ↔ v ∈ values ∧ R.counted v = true :=
    List.mem_filter
  have beyond {v : α} (counted : R.counted v = true) :
      (T.toValue v).partialCmp (T.toValue (T.start aggregateMin)) =
        some (minMaxCmp aggregateMin) ↔
          cmp (R.key v) (R.key (T.start aggregateMin)) = minMaxCmp aggregateMin := by
    rw [R.partialCmp_eq _ _ (R.number_of_counted counted) (R.number_start _), Option.some.injEq]
  cases has with
  | true =>
    obtain ⟨memM, counted, first⟩ := found.value rfl
    have memV : T.toValue m ∈ (values.filter R.counted).map T.toValue :=
      List.mem_map_of_mem (mem.mpr ⟨memM, counted⟩)
    refine iff_of_true ⟨memV, fun w memW => ?_⟩ (Or.inr ⟨_, memV, (beyond counted).mpr first⟩)
    obtain ⟨v, memV', rfl⟩ := List.mem_map.mp memW
    obtain ⟨memV', countedV⟩ := mem.mp memV'
    rw [R.partialCmp_eq _ _ (R.number_of_counted counted) (R.number_of_counted countedV),
      Option.some.injEq, Option.some.injEq]
    exact cmp_eq_of_not (found.least v memV' countedV)
  | false =>
    have start : m = T.start aggregateMin := found.start rfl
    have none_beyond : ¬ ∃ v ∈ (values.filter R.counted).map T.toValue,
        v.partialCmp (T.toValue (T.start aggregateMin)) = some (minMaxCmp aggregateMin) := by
      intro ⟨w, memW, less⟩
      obtain ⟨v, memV, rfl⟩ := List.mem_map.mp memW
      obtain ⟨memV, counted⟩ := mem.mp memV
      exact found.least v memV counted (start ▸ (beyond counted).mp less)
    exact (or_iff_left none_beyond).symm

end Ranked

end MinMaxType

/-! ## The types -/

theorem cmp_intCast (a b : Nat) : cmp (a : Int) (b : Int) = cmp a b :=
  Nat.strictMono_cast.cmp_map_eq a b

def byteRanked : byteMinMax.Ranked Nat where
  key := UInt8.toNat
  IsNumber _ := True
  counted _ := true
  number_of_counted _ := trivial
  number_start _ := trivial
  improves_iff aggregateMin v m _ := by simp [MinMaxType.improves, byteMinMax]
  partialCmp_eq v w _ _ := by
    have small (v : UInt8) : (Int64.ofInt v.toNat).toInt = v.toNat :=
      Int64.toInt_ofInt_of_le (le_trans (by decide) (Int.natCast_nonneg _))
        (lt_trans (Int.ofNat_lt.mpr v.toNat_lt) (by decide))
    simp only [byteMinMax, IsarValue.partialCmp, small, cmp_intCast]

def intRanked : intMinMax.Ranked Int where
  key := Int32.toInt
  IsNumber _ := True
  counted v := v ≠ nullInt
  number_of_counted _ := trivial
  number_start _ := trivial
  improves_iff aggregateMin v m _ := by simp [MinMaxType.improves, intMinMax]
  partialCmp_eq v w _ _ := by simp only [intMinMax, IsarValue.partialCmp, Int32.toInt_toInt64]

def longRanked : longMinMax.Ranked Int where
  key := Int64.toInt
  IsNumber _ := True
  counted v := v ≠ nullLong
  number_of_counted _ := trivial
  number_start _ := trivial
  improves_iff aggregateMin v m _ := by simp [MinMaxType.improves, longMinMax]
  partialCmp_eq _ _ _ _ := rfl

def doubleRanked : doubleMinMax.Ranked Int where
  key := F64.rank
  IsNumber v := v.isNan = false
  counted v := !v.isNan
  number_of_counted h := by simpa using h
  number_start aggregateMin := by cases aggregateMin <;> rfl
  improves_iff aggregateMin v m number := by
    cases nan : v.isNan <;> simp [MinMaxType.improves, doubleMinMax, F64.partialCmp, nan, number]
  partialCmp_eq v w hv hw := by simp [doubleMinMax, IsarValue.partialCmp, F64.partialCmp, hv, hw]

def floatRanked : floatMinMax.Ranked Int where
  key := F32.rank
  IsNumber v := v.isNan = false
  counted v := !v.isNan
  number_of_counted h := by simpa using h
  number_start aggregateMin := by cases aggregateMin <;> rfl
  improves_iff aggregateMin v m number := by
    cases nan : v.isNan <;> simp [MinMaxType.improves, floatMinMax, F32.partialCmp, nan, number]
  partialCmp_eq v w hv hw := by
    simp [floatMinMax, IsarValue.partialCmp, F32.partialCmp_toF64, F32.partialCmp, hv, hw]

/-- How the order of strings is decided does not matter. -/
theorem cmp_congr {α : Type} [LT α] (i j : DecidableLT α) (a b : α) :
    @cmp α _ i a b = @cmp α _ j a b := by
  rw [Subsingleton.elim i j]

theorem cmp_encode (v w : List Char) :
    cmp (Utf8.encode v) (Utf8.encode w) = @cmp _ _ LinearOrder.toDecidableLT v w := by
  refine Eq.trans ?_ (Utf8.encode_strictMono.cmp_map_eq v w)
  exact cmp_congr _ _ _ _

def stringRanked : stringMinMax.Ranked (List Char) where
  key := id
  IsNumber _ := True
  counted _ := true
  number_of_counted _ := trivial
  number_start _ := trivial
  improves_iff aggregateMin v m _ := by
    simp only [MinMaxType.improves, stringMinMax, cmp_encode]
    simp
  partialCmp_eq v w _ _ := congrArg some (cmp_congr _ _ v w)

/-! ## Queries -/

/-- The values of all objects, read by the type of the property. -/
theorem readAll_of_values {α : Type} {objects : List QueryObject}
    (read : IsarDeserializer → Option α) {present : α → Option IsarValue}
    {values : List (Option IsarValue)}
    (h : (objects.mapM fun o => (read o.2).map present) = some values) :
    ∃ read_, readAll objects read = some read_ ∧ values = read_.map present := by
  induction objects generalizing values with
  | nil =>
    cases h
    exact ⟨[], rfl, rfl⟩
  | cons o objects ih =>
    rw [List.mapM_cons] at h
    obtain ⟨v, first, h⟩ := Option.bind_eq_some_iff.mp h
    obtain ⟨rest, later, h⟩ := Option.bind_eq_some_iff.mp h
    obtain ⟨a, value, rfl⟩ := Option.map_eq_some_iff.mp first
    obtain ⟨as, all, rfl⟩ := ih later
    cases h
    refine ⟨a :: as, ?_, rfl⟩
    unfold readAll at all ⊢
    rw [List.mapM_cons, value, Option.bind_eq_bind, Option.bind_some, all]
    rfl

theorem reduceOption_map_present {α : Type} {present : α → Option IsarValue} {counted : α → Bool}
    {toValue : α → IsarValue}
    (h : ∀ v, present v = if counted v then some (toValue v) else none) (values : List α) :
    (values.map present).reduceOption = (values.filter counted).map toValue := by
  induction values with
  | nil => rfl
  | cons v values ih =>
    rw [List.map_cons, h v]
    cases c : counted v
    · rw [if_neg (by decide), List.reduceOption_cons_of_none, ih,
        List.filter_cons_of_neg (by simp [c])]
    · rw [if_pos rfl, List.reduceOption_cons_of_some, ih, List.filter_cons_of_pos (by simp [c]),
        List.map_cons]

/-- `aggregate_min_max` on the loop of a type. -/
theorem minMax_of_values {α K : Type} [LinearOrder K] {T : MinMaxType α} (R : T.Ranked K)
    {objects : List QueryObject} {read : IsarDeserializer → Option α}
    {present : α → Option IsarValue} {values : List (Option IsarValue)} {aggregateMin : Bool}
    (presents : ∀ v, present v = if R.counted v then some (T.toValue v) else none)
    (h : (objects.mapM fun o => (read o.2).map present) = some values) :
    ∃ result, (readAll objects read).map (T.minMax aggregateMin) = some result ∧
      (IsExtreme aggregateMin values.reduceOption result ↔ values.reduceOption = [] ∨
        ∃ v ∈ values.reduceOption,
          v.partialCmp (T.toValue (T.start aggregateMin)) = some (minMaxCmp aggregateMin)) := by
  obtain ⟨all, readAll_, rfl⟩ := readAll_of_values read h
  rw [reduceOption_map_present presents]
  exact ⟨_, by rw [readAll_]; rfl, R.minMax_exact aggregateMin all⟩

theorem reduceOption_mapM_none {objects : List QueryObject} {values : List (Option IsarValue)}
    (h : (objects.mapM fun _ => some (none : Option IsarValue)) = some values) :
    values.reduceOption = [] := by
  obtain rfl := Option.some.inj ((List.mapM_pure ..).symm.trans h)
  exact List.reduceOption_eq_nil_iff _ |>.mpr ⟨_, List.map_const' ..⟩

theorem aggregateMinMax_exact {objects : List QueryObject} {property : Option NativeProperty}
    {values : List (Option IsarValue)} (aggregateMin : Bool)
    (read : objects.mapM (aggregatedValue property) = some values) :
    ∃ result, aggregateMinMax objects property aggregateMin = some result ∧
      (IsExtreme aggregateMin values.reduceOption result ↔
        values.reduceOption = [] ∨ BeyondStart property aggregateMin values.reduceOption) := by
  unfold BeyondStart
  cases property with
  | none =>
    obtain rfl : (objects.map Prod.fst).map (fun id : Int64 =>
        if id ≠ nullLong then some (IsarValue.integer id) else none) = values := by
      rw [List.map_map]
      exact Option.some.inj ((List.mapM_pure ..).symm.trans read)
    rw [reduceOption_map_present (fun v => by simp [longRanked, longMinMax] :
      ∀ v, _ = if longRanked.counted v then some (longMinMax.toValue v) else none)]
    exact ⟨_, rfl, longRanked.minMax_exact aggregateMin _⟩
  | some p =>
    unfold aggregateMinMax startValue
    unfold aggregatedValue at read
    cases type : p.dataType <;> simp only [type] at read ⊢
    case byte => exact minMax_of_values byteRanked (fun _ => rfl) read
    case int => exact minMax_of_values intRanked (fun v => by simp [intRanked, intMinMax]) read
    case float =>
      exact minMax_of_values floatRanked (fun v => by cases nan : v.isNan <;>
        simp [floatRanked, floatMinMax, nan]) read
    case long => exact minMax_of_values longRanked (fun v => by simp [longRanked, longMinMax]) read
    case double =>
      exact minMax_of_values doubleRanked (fun v => by cases nan : v.isNan <;>
        simp [doubleRanked, doubleMinMax, nan]) read
    case string =>
      obtain ⟨all, readAll_, rfl⟩ := readAll_of_values (·.readStr p.offset) read
      have strings : (all.map (Option.map IsarValue.string)).reduceOption =
          (all.reduceOption.filter stringRanked.counted).map stringMinMax.toValue := by
        have counted : all.reduceOption.filter stringRanked.counted = all.reduceOption :=
          List.filter_eq_self.mpr fun _ _ => rfl
        rw [List.reduceOption_map, counted]
        rfl
      rw [strings]
      exact ⟨_, by rw [readAll_]; rfl, stringRanked.minMax_exact aggregateMin _⟩
    all_goals
      have empty := reduceOption_mapM_none read
      exact ⟨none, rfl, iff_of_true empty (Or.inl empty)⟩

section
variable {toLowercase : List Char → List Char} {xxh3_64_with_seed : Bytes → UInt64 → UInt64}
  {sortUnstableBy : (QueryObject → QueryObject → Ordering) → List QueryObject →
    List QueryObject} {overflowChecks : Bool}

/-- The minimum and the maximum of a query are right exactly if the property has no value in its
objects or some value that is strictly beyond the start of the loop. -/
theorem min_max_exact {query : NativeQuery} {txn : NativeTxn} {c : NativeCollection}
    {propertyIndex : Option UInt16} {objects : List QueryObject}
    {values : List (Option IsarValue)} (aggregateMin : Bool)
    (yields : query.results toLowercase xxh3_64_with_seed sortUnstableBy txn c true 0 0xffffffff =
      some objects)
    (read : objects.mapM (aggregatedValue (propertyIndex.bind c.getProperty)) = some values) :
    ∃ result, query.aggregate toLowercase xxh3_64_with_seed sortUnstableBy overflowChecks txn c
        (if aggregateMin then .min else .max) propertyIndex = some result ∧
      (IsExtreme aggregateMin values.reduceOption result ↔ values.reduceOption = [] ∨
        BeyondStart (propertyIndex.bind c.getProperty) aggregateMin values.reduceOption) := by
  obtain ⟨result, found, exact_⟩ := aggregateMinMax_exact aggregateMin read
  refine ⟨result, ?_, exact_⟩
  unfold NativeQuery.aggregate
  rw [yields]
  cases aggregateMin <;> exact found

end

/-! ## Objects with a byte -/

/-- A collection of objects with one byte, with an object for each of the bytes. -/
def pixels : NativeCollection :=
  .new 0 "pixels" (some "id") [("brightness", ⟨.byte, 0, none⟩)] [] (some "pixels")

def storedPixels (bytes : List UInt8) : NativeTxn :=
  (bytes.zipIdx 1).foldl (fun txn (byte, id) => txn.putObject "pixels" (Int64.ofNat id)
    [1, 0, 0, byte]) .empty

/-- All objects, unsorted. -/
def allObjects : NativeQuery := { filter := .stat true, sort := [], distinct := [] }

theorem min_max_exact_on_pixels :
    ∃ result, allObjects.aggregate id (fun _ seed => seed) (fun _ objects => objects) false
        (storedPixels [7, 3]) pixels .min (some 1) = some result ∧
      (IsExtreme true [.integer 7, .integer 3] result ↔
        [IsarValue.integer 7, .integer 3] = [] ∨
          BeyondStart (pixels.getProperty 1) true [.integer 7, .integer 3]) := by
  have yields : allObjects.results id (fun _ seed => seed) (fun _ objects => objects)
      (storedPixels [7, 3]) pixels true 0 0xffffffff =
        some [(1, ⟨[7], 1⟩), (2, ⟨[3], 1⟩)] := by decide +kernel
  have read : [((1 : Int64), IsarDeserializer.mk [7] 1), (2, ⟨[3], 1⟩)].mapM
      (aggregatedValue ((some (1 : UInt16)).bind pixels.getProperty)) =
        some [some (.integer 7), some (.integer 3)] := by decide +kernel
  exact min_max_exact true yields read

/-- The least of two bytes 255 is none. -/
theorem least_byte_missed :
    allObjects.aggregate id (fun _ seed => seed) (fun _ objects => objects) false
        (storedPixels [255, 255]) pixels .min (some 1) = some none ∧
      ¬ IsExtreme true [.integer 255, .integer 255] none := by
  refine ⟨by decide +kernel, ?_⟩
  simp [IsExtreme]

end IsarPlus.Native
