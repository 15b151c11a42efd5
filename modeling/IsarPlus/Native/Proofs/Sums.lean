import IsarPlus.Native.Proofs.MinMax

/-!
# Sum and average

The loops of `aggregate_sum_average` over integers keep the sum so far in an `i64`: without a check
for overflow it is the sum modulo `2 ^ 64`, and with it every partial sum has to fit.
-/

namespace IsarPlus.Native
open ByteBuffer Scalar

/-- The property is a byte, an int or a long, or there is none and the ids are meant. -/
def IsIntegerProperty : Option NativeProperty → Prop
  | some p => p.dataType = .byte ∨ p.dataType = .int ∨ p.dataType = .long
  | none => True

/-- The integers among the values. -/
def integersOf (values : List IsarValue) : List Int64 := values.filterMap IsarValue.i64?

def total (values : List Int64) : Int := (values.map Int64.toInt).sum

def FitsI64 (n : Int) : Prop := -2 ^ 63 ≤ n ∧ n < 2 ^ 63

instance (n : Int) : Decidable (FitsI64 n) := inferInstanceAs (Decidable (_ ∧ _))

/-- What the sum is to be: the mathematical one, and none if that does not fit. -/
def exactSum (values : List Int64) : Option IsarValue :=
  if FitsI64 (total values) then some (.integer (Int64.ofInt (total values))) else none

/-- What the average is to be: the mathematical sum divided by the number of values. -/
def exactAverage (values : List Int64) : IsarValue :=
  if values = [] then .real F64.nan
  else .real ((F64.ofInt (total values)).div (F64.ofInt values.length))

/-- The sum fits, and in a build with checks for overflow all partial sums do. -/
def SumFits (overflowChecks : Bool) (values : List Int64) : Prop :=
  FitsI64 (total values) ∧
    (overflowChecks = true → ∀ n ≤ values.length, FitsI64 (total (values.take n)))

/-! ## The loop -/

theorem total_cons (v : Int64) (values : List Int64) :
    total (v :: values) = v.toInt + total values := List.sum_cons

theorem toInt_ofInt_of_fits {n : Int} (fits : FitsI64 n) : (Int64.ofInt n).toInt = n :=
  Int64.toInt_ofInt_of_le fits.1 fits.2

theorem fits_toInt (v : Int64) : FitsI64 v.toInt := ⟨v.le_toInt, v.toInt_lt⟩

/-- Without a check the sum is right modulo `2 ^ 64`. -/
theorem sumIntegersFrom_unchecked (sum : Int64) (count : Nat) (values : List Int64) :
    sumIntegersFrom false sum count values =
      some (sum + Int64.ofInt (total values), count + values.length) := by
  induction values generalizing sum count with
  | nil =>
    have zero : Int64.ofInt (total []) = 0 := rfl
    rw [zero, Int64.add_zero]
    rfl
  | cons v values ih =>
    have first : addI64 false sum v = some (sum + v) := rfl
    rw [sumIntegersFrom, first, Option.bind_eq_bind, Option.bind_some, ih, total_cons,
      Int64.ofInt_add, Int64.ofInt_toInt, Int64.add_assoc, List.length_cons, Nat.add_assoc,
      Nat.add_comm 1]

/-- The partial sums of a list, behind the sum so far. -/
theorem forall_partial_cons {s : Int} (fits : FitsI64 s) (v : Int64) (values : List Int64) :
    (∀ n ≤ (v :: values).length, FitsI64 (s + total ((v :: values).take n))) ↔
      FitsI64 (s + v.toInt) ∧
        ∀ n ≤ values.length, FitsI64 (s + v.toInt + total (values.take n)) := by
  have zero (t : Int) (values : List Int64) : t + total (values.take 0) = t := Int.add_zero t
  have next (n : Nat) :
      s + total ((v :: values).take (n + 1)) = s + v.toInt + total (values.take n) := by
    rw [List.take_succ_cons, total_cons, Int.add_assoc]
  constructor
  · intro all
    have later (n : Nat) (le : n ≤ values.length) :
        FitsI64 (s + v.toInt + total (values.take n)) :=
      next n ▸ all (n + 1) (Nat.succ_le_succ le)
    exact ⟨zero (s + v.toInt) values ▸ later 0 (Nat.zero_le _), later⟩
  · intro ⟨_, later⟩ n le
    cases n with
    | zero =>
      rw [zero]
      exact fits
    | succ n =>
      rw [next]
      exact later n (Nat.le_of_succ_le_succ le)

/-- With a check the sum is right if all partial sums fit, and the loop panics otherwise. -/
theorem sumIntegersFrom_checked (sum : Int64) (count : Nat) (values : List Int64) :
    sumIntegersFrom true sum count values =
      if ∀ n ≤ values.length, FitsI64 (sum.toInt + total (values.take n)) then
        some (Int64.ofInt (sum.toInt + total values), count + values.length)
      else none := by
  induction values generalizing sum count with
  | nil =>
    have zero : total [] = 0 := rfl
    have fits : ∀ n ≤ ([] : List Int64).length,
        FitsI64 (sum.toInt + total (([] : List Int64).take n)) := by
      intro n _
      rw [List.take_nil, zero, Int.add_zero]
      exact fits_toInt sum
    rw [if_pos fits, zero, Int.add_zero, Int64.ofInt_toInt]
    rfl
  | cons v values ih =>
    simp only [forall_partial_cons (fits_toInt sum) v values]
    by_cases fits : FitsI64 (sum.toInt + v.toInt)
    · have toInt : (sum + v).toInt = sum.toInt + v.toInt := by
        rw [← toInt_ofInt_of_fits fits, Int64.ofInt_add, Int64.ofInt_toInt, Int64.ofInt_toInt]
      have first : addI64 true sum v = some (sum + v) := by
        unfold FitsI64 at fits
        rw [addI64, decide_eq_true fits]
        rfl
      rw [sumIntegersFrom, first, Option.bind_eq_bind, Option.bind_some, ih, toInt, total_cons,
        ← Int.add_assoc, List.length_cons]
      simp only [fits, true_and, Nat.add_assoc, Nat.add_comm 1]
    · have first : addI64 true sum v = none := by
        unfold FitsI64 at fits
        rw [addI64, decide_eq_false fits]
        rfl
      rw [sumIntegersFrom, first, if_neg fun h => fits h.1]
      rfl

theorem fits_total_of_sums {values : List Int64}
    (h : ∀ n ≤ values.length, FitsI64 (total (values.take n))) : FitsI64 (total values) := by
  have whole := h values.length le_rfl
  rwa [List.take_length] at whole

/-- The loop finds the sum and the number of values if the sum fits. -/
theorem sumIntegers_of_fits {overflowChecks : Bool} {values : List Int64}
    (fits : SumFits overflowChecks values) :
    sumIntegers overflowChecks values = some (Int64.ofInt (total values), values.length) := by
  unfold sumIntegers
  cases overflowChecks with
  | false => rw [sumIntegersFrom_unchecked, Int64.zero_add, Nat.zero_add]
  | true =>
    rw [sumIntegersFrom_checked, if_pos]
    · simp
    · simpa using fits.2 rfl

/-- Otherwise it finds a wrapped number, or panics. -/
theorem sumIntegers_ne_of_not_fits {overflowChecks : Bool} {values : List Int64}
    (h : ¬ SumFits overflowChecks values) :
    (sumIntegers overflowChecks values).map (fun sum => some (integerResult true sum)) ≠
      some (exactSum values) := by
  unfold sumIntegers exactSum
  cases overflowChecks with
  | false =>
    have large : ¬ FitsI64 (total values) := fun fits => h ⟨fits, nofun⟩
    rw [sumIntegersFrom_unchecked, if_neg large]
    simp
  | true =>
    have large : ¬ ∀ n ≤ values.length, FitsI64 ((0 : Int64).toInt + total (values.take n)) := by
      intro all
      simp only [Int64.toInt_zero, Int.zero_add] at all
      exact h ⟨fits_total_of_sums all, fun _ => all⟩
    rw [sumIntegersFrom_checked, if_neg large]
    simp

/-! ## Queries -/

theorem integersOf_map {α : Type} (f : α → Int64) (values : List α) :
    integersOf (values.map fun v => .integer (f v)) = values.map f := by
  rw [integersOf, List.filterMap_map]
  exact congrFun (List.filterMap_eq_map (f := f)) values

/-- The integers among the values that are not null. -/
theorem integersOf_present {α : Type} {present : α → Option IsarValue} (counted : α → Bool)
    (f : α → Int64) (h : ∀ v, present v = if counted v then some (.integer (f v)) else none)
    (values : List α) :
    integersOf (values.map present).reduceOption = (values.filter counted).map f := by
  rw [reduceOption_map_present h, integersOf_map]

/-- The loop of an integer property runs over the integers among its values. -/
theorem aggregateSumAverage_eq (overflowChecks : Bool) {objects : List QueryObject}
    {property : Option NativeProperty} {values : List (Option IsarValue)} (aggregateSum : Bool)
    (integer : IsIntegerProperty property)
    (read : objects.mapM (aggregatedValue property) = some values) :
    aggregateSumAverage overflowChecks objects property aggregateSum =
      (sumIntegers overflowChecks (integersOf values.reduceOption)).map fun sum =>
        some (integerResult aggregateSum sum) := by
  have result (sum : Option (Int64 × Nat)) :
      (sum.bind fun sum => pure (some (integerResult aggregateSum sum))) =
        sum.map fun sum => some (integerResult aggregateSum sum) := by
    cases sum <;> rfl
  cases property with
  | none =>
    obtain rfl : (objects.map Prod.fst).map (fun id : Int64 =>
        if id ≠ nullLong then some (IsarValue.integer id) else none) = values := by
      rw [List.map_map]
      exact Option.some.inj ((List.mapM_pure ..).symm.trans read)
    rw [integersOf_present (fun id => id ≠ nullLong) id (fun v => by simp), List.map_id]
    exact result _
  | some p =>
    unfold aggregatedValue at read
    rcases integer with type | type | type <;> simp only [type] at read
    · obtain ⟨all, readAll_, rfl⟩ := readAll_of_values (·.readByte p.offset) read
      have present (v : UInt8) : some (IsarValue.integer (Int64.ofInt v.toNat)) =
          if true then some (IsarValue.integer (Int64.ofInt v.toNat)) else none := rfl
      have integers := integersOf_present (fun _ => true) _ present all
      rw [List.filter_eq_self.mpr fun _ _ => rfl] at integers
      rw [integers]
      simp only [aggregateSumAverage, type, readAll_]
      exact result _
    · obtain ⟨all, readAll_, rfl⟩ := readAll_of_values (·.readInt p.offset) read
      rw [integersOf_present (fun v => v ≠ nullInt) Int32.toInt64 (fun v => by simp)]
      simp only [aggregateSumAverage, type, readAll_]
      exact result _
    · obtain ⟨all, readAll_, rfl⟩ := readAll_of_values (·.readLong p.offset) read
      rw [integersOf_present (fun v => v ≠ nullLong) id (fun v => by simp), List.map_id]
      simp only [aggregateSumAverage, type, readAll_]
      exact result _

section
variable {toLowercase : List Char → List Char} {xxh3_64_with_seed : Bytes → UInt64 → UInt64}
  {sortUnstableBy : (QueryObject → QueryObject → Ordering) → List QueryObject →
    List QueryObject} {overflowChecks : Bool}

/-- Sum and average of a query are right exactly if the sum, and in a build with checks for overflow
every partial sum, fits. -/
theorem sum_average_exact {query : NativeQuery} {txn : NativeTxn} {c : NativeCollection}
    {propertyIndex : Option UInt16} {objects : List QueryObject}
    {values : List (Option IsarValue)}
    (integer : IsIntegerProperty (propertyIndex.bind c.getProperty))
    (yields : query.results toLowercase xxh3_64_with_seed sortUnstableBy txn c true 0 0xffffffff =
      some objects)
    (read : objects.mapM (aggregatedValue (propertyIndex.bind c.getProperty)) = some values) :
    (query.aggregate toLowercase xxh3_64_with_seed sortUnstableBy overflowChecks txn c .sum
          propertyIndex = some (exactSum (integersOf values.reduceOption)) ∧
        query.aggregate toLowercase xxh3_64_with_seed sortUnstableBy overflowChecks txn c .average
          propertyIndex = some (some (exactAverage (integersOf values.reduceOption)))) ↔
      SumFits overflowChecks (integersOf values.reduceOption) := by
  have loop (aggregateSum : Bool) : query.aggregate toLowercase xxh3_64_with_seed sortUnstableBy
      overflowChecks txn c (if aggregateSum then .sum else .average) propertyIndex =
        (sumIntegers overflowChecks (integersOf values.reduceOption)).map fun sum =>
          some (integerResult aggregateSum sum) := by
    rw [NativeQuery.aggregate, yields]
    have eq := aggregateSumAverage_eq overflowChecks aggregateSum integer read
    cases aggregateSum <;> exact eq
  have sum := loop true
  have average := loop false
  simp only [if_true, Bool.false_eq_true, if_false] at sum average
  rw [sum, average]
  constructor
  · intro ⟨right, _⟩
    by_contra not_fits
    exact sumIntegers_ne_of_not_fits not_fits right
  · intro fits
    rw [sumIntegers_of_fits fits]
    generalize integersOf values.reduceOption = integers at fits
    refine ⟨?_, ?_⟩
    · rw [exactSum, if_pos fits.1]
      rfl
    · unfold exactAverage
      cases integers with
      | nil => rfl
      | cons v integers =>
        have counted : 0 < (v :: integers).length := Nat.succ_pos integers.length
        rw [if_neg (List.cons_ne_nil v integers), Option.map_some, integerResult,
          if_neg (by decide), if_pos counted, toInt_ofInt_of_fits fits.1]

end

/-! ## Objects with a long -/

/-- A collection of objects with one long, with an object for each of the longs. -/
def journeys : NativeCollection :=
  .new 0 "journeys" (some "id") [("duration", ⟨.long, 0, none⟩)] [] (some "journeys")

def storedJourneys (longs : List Int64) : NativeTxn :=
  (longs.zipIdx 1).foldl (fun txn (long, id) => txn.putObject "journeys" (Int64.ofNat id)
    ([8, 0, 0] ++ i64Le long)) .empty

theorem sum_average_exact_on_pixels :
    (allObjects.aggregate id (fun _ seed => seed) (fun _ objects => objects) false
          (storedPixels [7, 3]) pixels .sum (some 1) = some (exactSum [7, 3]) ∧
        allObjects.aggregate id (fun _ seed => seed) (fun _ objects => objects) false
          (storedPixels [7, 3]) pixels .average (some 1) = some (some (exactAverage [7, 3]))) ↔
      SumFits false [7, 3] := by
  have yields : allObjects.results id (fun _ seed => seed) (fun _ objects => objects)
      (storedPixels [7, 3]) pixels true 0 0xffffffff =
        some [(1, ⟨[7], 1⟩), (2, ⟨[3], 1⟩)] := by decide +kernel
  have read : [((1 : Int64), IsarDeserializer.mk [7] 1), (2, ⟨[3], 1⟩)].mapM
      (aggregatedValue ((some (1 : UInt16)).bind pixels.getProperty)) =
        some [some (.integer 7), some (.integer 3)] := by decide +kernel
  have integer : IsIntegerProperty ((some (1 : UInt16)).bind pixels.getProperty) := Or.inl rfl
  exact sum_average_exact integer yields read

/-- The sum of the greatest long and one is the least long. -/
theorem sum_wraps :
    allObjects.aggregate id (fun _ seed => seed) (fun _ objects => objects) false
        (storedJourneys [Int64.maxValue, 1]) journeys .sum (some 1) =
          some (some (.integer Int64.minValue)) ∧
      exactSum [Int64.maxValue, 1] = none := by
  decide +kernel

end IsarPlus.Native
