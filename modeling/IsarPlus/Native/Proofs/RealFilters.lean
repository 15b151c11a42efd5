import IsarPlus.Lib.FloatOrder
import IsarPlus.Native.Proofs.ComparisonFilters
import Mathlib

/-!
# Float and double comparison filters

What the compiled filters on float and double properties match, as a statement about the order of
the reals with null below. A strict bound is moved to the next 32-bit float above: this is right for
a lower bound unless the property has values in between, and wrong for an upper bound.
-/

namespace IsarPlus.Native
open ByteBuffer Scalar

/-- The place of a stored value or an operand among null and the reals; a NaN stands for null. -/
def realOrder (v : F64) : WithBot Int := if v.isNan then ⊥ else (v.rank : Int)

/-- What a strict bound is replaced by. -/
def stepped (v : F64) : F64 := v.toF32.nextUp.toF64

/-- The number that an operand stands for. -/
def operandReal : Option IsarValue → F64
  | some (.real v) => v
  | _ => F64.nan

/-- The inputs on which a filter is exact: a strict lower bound errs on the values that it skips, a
strict upper bound, unless it is null or the least number, on those that it lets through. -/
def RealExact (t : ConditionType) (x l : F64) : Prop :=
  match t with
  | .greater => ¬ (realOrder l < realOrder x ∧ realOrder x < realOrder (stepped l))
  | .less => ¬ (realOrder F64.negInfinity < realOrder l ∧ realOrder l ≤ realOrder x ∧
      realOrder x ≤ realOrder (stepped l))
  | _ => True

/-! ## The order -/

theorem realOrder_of_nan {v : F64} (nan : v.isNan = true) : realOrder v = ⊥ := if_pos nan

theorem realOrder_of_number {v : F64} (number : v.isNan = false) :
    realOrder v = (v.rank : WithBot Int) := by
  rw [realOrder, number]
  rfl

theorem rank_bounds {v : F64} (number : v.isNan = false) :
    -(2047 * 2 ^ 52) ≤ v.rank ∧ v.rank ≤ 2047 * 2 ^ 52 := by
  have bound := F64.magnitude_le number
  unfold F64.rank
  split <;> omega

theorem rank_infinity : F64.infinity.rank = 2047 * 2 ^ 52 := by decide

theorem rank_negInfinity : F64.negInfinity.rank = -(2047 * 2 ^ 52) := by decide

theorem realOrder_infinity : realOrder F64.infinity = ((2047 * 2 ^ 52 : Int) : WithBot Int) := by
  rw [realOrder_of_number (by decide), rank_infinity]

theorem realOrder_negInfinity :
    realOrder F64.negInfinity = ((-(2047 * 2 ^ 52) : Int) : WithBot Int) := by
  rw [realOrder_of_number (by decide), rank_negInfinity]

theorem le_infinity (v : F64) : realOrder v ≤ realOrder F64.infinity := by
  cases nan : v.isNan with
  | true =>
    rw [realOrder_of_nan nan]
    exact bot_le
  | false =>
    rw [realOrder_of_number nan, realOrder_infinity]
    exact WithBot.coe_le_coe.mpr (rank_bounds nan).2

/-- The least number is below exactly the values that are not null. -/
theorem negInfinity_le_iff (v : F64) : realOrder F64.negInfinity ≤ realOrder v ↔ ⊥ < realOrder v := by
  rw [realOrder_negInfinity]
  cases nan : v.isNan with
  | true => simp [realOrder_of_nan nan]
  | false =>
    rw [realOrder_of_number nan]
    exact iff_of_true (WithBot.coe_le_coe.mpr (rank_bounds nan).1) (WithBot.bot_lt_coe _)

theorem realOrder_nan : realOrder F64.nan = ⊥ := realOrder_of_nan rfl

theorem toF64_nan : F32.nan.toF64 = F64.nan := by decide

theorem toF64_infinity : F32.infinity.toF64 = F64.infinity := by decide

theorem toF64_negInfinity : F32.negInfinity.toF64 = F64.negInfinity := by decide

theorem eq_iff_realOrder {v w : F64} (number : w.isNan = false) :
    v.eq w = true ↔ realOrder v = realOrder w := by
  cases nan : v.isNan with
  | true => simp [F64.eq, nan, realOrder_of_nan nan, realOrder_of_number number]
  | false => simp [F64.eq, nan, number, realOrder_of_number nan, realOrder_of_number number]

theorem stepped_of_nan {v : F64} (nan : v.isNan = true) : realOrder (stepped v) = ⊥ := by
  have same : v.toF32 = F32.nan := by rw [F64.toF32, if_pos nan]
  rw [stepped, same]
  decide

/-- A strict bound is moved upwards. -/
theorem lt_stepped {v : F64} (number : v.isNan = false)
    (below : realOrder v ≠ realOrder F64.infinity) : realOrder v < realOrder (stepped v) := by
  have finite : v.rank < 2047 * 2 ^ 52 := by
    refine lt_of_le_of_ne (rank_bounds number).2 fun same => below ?_
    rw [realOrder_of_number number, realOrder_infinity, same]
  obtain ⟨next, less⟩ := F64.rank_lt_nextUp number finite
  have nextNumber : (stepped v).isNan = false := by rw [stepped, F32.isNan_toF64, next]
  rw [realOrder_of_number number, realOrder_of_number nextNumber]
  exact WithBot.coe_lt_coe.mpr less

theorem le_stepped {v : F64} (number : v.isNan = false) : realOrder v ≤ realOrder (stepped v) := by
  by_cases top : realOrder v = realOrder F64.infinity
  · rw [realOrder_of_number number, realOrder_infinity, WithBot.coe_inj] at top
    have same := F64.eq_infinity_of_rank number top.ge
    have stays : stepped F64.infinity = F64.infinity := by decide
    rw [same, stays]
  · exact le_of_lt (lt_stepped number top)

/-! ## Compiled bounds -/

theorem lower_inclusive (value : Option IsarValue) (x : F64)
    (real : operand IsarValue.real? F64.nan value = some (operandReal value)) :
    (∃ L, lowerReal value true = some L ∧ realOrder L ≤ realOrder x) ↔
      realOrder (operandReal value) ≤ realOrder x := by
  simp [lowerReal, real]

theorem upper_inclusive (value : Option IsarValue) (x : F64)
    (real : operand IsarValue.real? F64.nan value = some (operandReal value)) :
    (∃ U, upperReal value true = some U ∧ realOrder x ≤ realOrder U) ↔
      realOrder x ≤ realOrder (operandReal value) := by
  simp [upperReal, real]

/-- A strict lower bound lets through what is above it and not skipped. -/
theorem lower_strict (value : Option IsarValue) (x : F64)
    (real : operand IsarValue.real? F64.nan value = some (operandReal value)) :
    (∃ L, lowerReal value false = some L ∧ realOrder L ≤ realOrder x) ↔
      realOrder (operandReal value) < realOrder x ∧
        realOrder (stepped (operandReal value)) ≤ realOrder x := by
  simp only [lowerReal, real, Option.bind_eq_bind, Option.bind_some, Bool.false_eq_true, if_false]
  generalize operandReal value = r
  cases nan : r.isNan with
  | true =>
    simp only [if_true, Option.pure_def, Option.some.injEq, exists_eq_left', negInfinity_le_iff,
      realOrder_of_nan nan, stepped_of_nan nan, bot_le, and_true]
  | false =>
    simp only [Bool.false_eq_true, if_false]
    by_cases top : r.eq F64.infinity = true
    · rw [if_pos top]
      have same := (eq_iff_realOrder (by decide)).mp top
      rw [same]
      exact iff_of_false nofun fun h => not_lt_of_ge (le_infinity x) h.1
    · rw [if_neg top]
      have less := lt_stepped nan fun same => top ((eq_iff_realOrder (by decide)).mpr same)
      simp only [Option.pure_def, Option.some.injEq, exists_eq_left']
      exact ⟨fun le => ⟨lt_of_lt_of_le less le, le⟩, And.right⟩

/-- A strict upper bound lets through what is not above the next float; null and the least number
are compared as they should. -/
theorem upper_strict (value : Option IsarValue) (x : F64)
    (real : operand IsarValue.real? F64.nan value = some (operandReal value)) :
    (∃ U, upperReal value false = some U ∧ realOrder x ≤ realOrder U) ↔
      realOrder x < realOrder (operandReal value) ∨
        (realOrder F64.negInfinity < realOrder (operandReal value) ∧
          realOrder (operandReal value) ≤ realOrder x ∧
          realOrder x ≤ realOrder (stepped (operandReal value))) := by
  simp only [upperReal, real, Option.bind_eq_bind, Option.bind_some, Bool.false_eq_true, if_false]
  generalize operandReal value = r
  cases nan : r.isNan with
  | true =>
    rw [if_pos rfl, realOrder_of_nan nan]
    refine iff_of_false nofun ?_
    intro h
    rcases h with less | ⟨less, -⟩ <;> exact not_lt_bot less
  | false =>
    simp only [Bool.false_eq_true, if_false]
    by_cases least : r.eq F64.negInfinity = true
    · rw [if_pos least]
      have same := (eq_iff_realOrder (by decide)).mp least
      rw [same]
      simp only [Option.pure_def, Option.some.injEq, exists_eq_left', realOrder_nan, lt_irrefl,
        false_and,
        or_false]
      rw [le_bot_iff, ← not_iff_not, not_lt, negInfinity_le_iff, bot_lt_iff_ne_bot]
    · rw [if_neg least]
      have above : realOrder F64.negInfinity < realOrder r := by
        refine lt_of_le_of_ne ?_ fun same => least ((eq_iff_realOrder (by decide)).mpr same.symm)
        rw [negInfinity_le_iff, realOrder_of_number nan]
        exact WithBot.bot_lt_coe _
      simp only [Option.pure_def, Option.some.injEq, exists_eq_left', above, true_and]
      constructor
      · intro le
        exact (lt_or_ge (realOrder x) (realOrder r)).imp_right fun ge => ⟨ge, le⟩
      · intro h
        exact h.elim (fun less => (le_of_lt less).trans (le_stepped nan)) And.right

/-- A strict upper bound errs exactly on what it should not let through. -/
theorem upper_strict_exact (value : Option IsarValue) (x : F64)
    (real : operand IsarValue.real? F64.nan value = some (operandReal value)) :
    ((∃ U, upperReal value false = some U ∧ realOrder x ≤ realOrder U) ↔
        realOrder x < realOrder (operandReal value)) ↔
      RealExact .less x (operandReal value) := by
  rw [upper_strict value x real]
  constructor
  · intro same wrong
    exact not_lt_of_ge wrong.2.1 (same.mp (Or.inr wrong))
  · intro right
    exact or_iff_left right

/-- A strict lower bound errs exactly on what it skips. -/
theorem lower_strict_exact (value : Option IsarValue) (x : F64)
    (real : operand IsarValue.real? F64.nan value = some (operandReal value)) :
    ((∃ L, lowerReal value false = some L ∧ realOrder L ≤ realOrder x) ↔
        realOrder (operandReal value) < realOrder x) ↔
      RealExact .greater x (operandReal value) := by
  rw [lower_strict value x real]
  constructor
  · intro same wrong
    exact not_lt_of_ge (same.mpr wrong.1).2 wrong.2
  · intro right
    exact and_iff_left_of_imp fun less => not_lt.mp fun skipped => right ⟨less, skipped⟩

/-! ## Filters on a stored object -/

variable {toLowercase : List Char → List Char}

/-- The number that an object stores in a float or double property. -/
def storedReal (property : Option NativeProperty) (object : IsarDeserializer) : Option F64 :=
  match property with
  | some p =>
    match p.dataType with
    | .float => (object.readFloat p.offset).map F32.toF64
    | .double => object.readDouble p.offset
    | _ => none
  | none => none

/-- A null or real operand; that of a float property is a 32-bit float. -/
def FitsReal (property : Option NativeProperty) : Option IsarValue → Prop
  | none => True
  | some (.real v) => property.map NativeProperty.dataType = some .float → ∃ a : F32, v = a.toF64
  | _ => False

section
variable {property : Option NativeProperty} {id : Int64} {object : IsarDeserializer}
  {t : ConditionType} {lower upper : Option IsarValue} {caseSensitive : Bool}

theorem FitsReal.operand {value : Option IsarValue} (fits : FitsReal property value) :
    operand IsarValue.real? F64.nan value = some (operandReal value) := by
  rcases value with _ | v
  · rfl
  · cases v with
    | real v => rfl
    | _ => cases fits

theorem FitsReal.float {value : Option IsarValue} (fits : FitsReal property value)
    (type : property.map NativeProperty.dataType = some .float) :
    ∃ a : F32, operandReal value = a.toF64 := by
  rcases value with _ | v
  · exact ⟨F32.nan, toF64_nan.symm⟩
  · cases v with
    | real v => exact fits type
    | _ => cases fits

/-- The test of a double filter. -/
theorem test_iff (L U v : F64) :
    ((L.le v || L.isNan) && (v.le U || v.isNan)) = true ↔
      realOrder L ≤ realOrder v ∧ realOrder v ≤ realOrder U := by
  rw [Bool.and_eq_true]
  refine and_congr ?_ ?_
  · cases nanL : L.isNan with
    | true => simp [realOrder_of_nan nanL]
    | false =>
      cases nan : v.isNan with
      | true => simp [F64.le, nan, realOrder_of_nan nan, realOrder_of_number nanL]
      | false => simp [F64.le, nan, nanL, realOrder_of_number nan, realOrder_of_number nanL]
  · cases nan : v.isNan with
    | true => simp [realOrder_of_nan nan]
    | false =>
      cases nanU : U.isNan with
      | true => simp [F64.le, nanU, realOrder_of_nan nanU, realOrder_of_number nan]
      | false => simp [F64.le, nan, nanU, realOrder_of_number nan, realOrder_of_number nanU]

theorem isNan_toF32_toF64 (a : F32) : a.toF64.toF32.isNan = a.isNan := by
  cases nan : a.isNan with
  | true =>
    have same : a.toF64 = F64.nan := by rw [F32.toF64, if_pos nan]
    rw [same]
    decide
  | false => rw [F32.toF32_toF64 nan, nan]

theorem le_toF64 (a b : F32) : a.toF64.le b.toF64 = a.le b := by
  rw [F64.le, F32.le, F32.isNan_toF64, F32.isNan_toF64]
  cases nanA : a.isNan with
  | true => rw [Bool.not_true, Bool.false_and, Bool.false_and, Bool.false_and]
  | false =>
    cases nanB : b.isNan with
    | true => rw [Bool.not_true, Bool.and_false, Bool.false_and, Bool.false_and]
    | false =>
      congr 1
      rw [decide_eq_decide, ← not_lt, ← not_lt, F32.rank_toF64_lt_iff nanB nanA]

/-- The test of a float filter is the one of a double filter. -/
theorem float_test (L U v : F32) :
    ((L.toF64.toF32.le v || L.toF64.toF32.isNan) && (v.le U.toF64.toF32 || v.isNan)) =
      ((L.toF64.le v.toF64 || L.toF64.isNan) && (v.toF64.le U.toF64 || v.toF64.isNan)) := by
  have le (a b : F32) (nan : a.toF64.toF32.isNan = a.isNan) : a.toF64.toF32.le b = a.le b ∧
      b.le a.toF64.toF32 = b.le a := by
    cases h : a.isNan with
    | true => simp [F32.le, nan, h]
    | false => simp [F32.toF32_toF64 h]
  rw [isNan_toF32_toF64, (le L v (isNan_toF32_toF64 L)).1, (le U v (isNan_toF32_toF64 U)).2,
    le_toF64, le_toF64, F32.isNan_toF64, F32.isNan_toF64]

/-- The bounds of a 32-bit float are 32-bit floats. -/
theorem lowerReal_float {value : Option IsarValue} {inclusive : Bool} {L : F64}
    (real : Native.operand IsarValue.real? F64.nan value = some (operandReal value))
    (float : ∃ a : F32, operandReal value = a.toF64) (h : lowerReal value inclusive = some L) :
    ∃ a : F32, L = a.toF64 := by
  simp only [lowerReal, real, Option.bind_eq_bind, Option.bind_some] at h
  split at h
  · cases h
    exact float
  · split at h
    · cases h
      exact ⟨F32.negInfinity, toF64_negInfinity.symm⟩
    · split at h
      · cases h
      · cases h
        exact ⟨_, rfl⟩

theorem upperReal_float {value : Option IsarValue} {inclusive : Bool} {U : F64}
    (real : Native.operand IsarValue.real? F64.nan value = some (operandReal value))
    (float : ∃ a : F32, operandReal value = a.toF64) (h : upperReal value inclusive = some U) :
    ∃ a : F32, U = a.toF64 := by
  simp only [upperReal, real, Option.bind_eq_bind, Option.bind_some] at h
  split at h
  · cases h
    exact float
  · split at h
    · cases h
    · split at h
      · cases h
        exact ⟨F32.nan, toF64_nan.symm⟩
      · cases h
        exact ⟨_, rfl⟩

/-- Compiled bounds match what lies between them; without bounds nothing matches. -/
theorem evaluate_real_bounds {lowerBound upperBound : Option F64}
    {make : F64 → F64 → NativeFilter} {x : F64}
    (evaluates : ∀ L U, lowerBound = some L → upperBound = some U →
      (make L U).evaluate toLowercase id object =
        some ((L.le x || L.isNan) && (x.le U || x.isNan))) :
    ∃ b, ((do
          let l ← lowerBound
          let u ← upperBound
          pure (make l u)).getD (.stat false)).evaluate toLowercase id object = some b ∧
      (b = true ↔ (∃ L, lowerBound = some L ∧ realOrder L ≤ realOrder x) ∧
        ∃ U, upperBound = some U ∧ realOrder x ≤ realOrder U) := by
  cases lowerBound with
  | none => exact ⟨false, rfl, by simp⟩
  | some L =>
    cases upperBound with
    | none => exact ⟨false, rfl, by simp⟩
    | some U =>
      refine ⟨_, evaluates L U rfl rfl, ?_⟩
      simpa using test_iff L U x

/-- What a compiled condition matches on an object with the number `x`. -/
theorem decides_between {p : NativeProperty} {x : F64} (includeLower includeUpper : Bool)
    (stored : storedReal (some p) object = some x) (hl : FitsReal (some p) lower)
    (hu : FitsReal (some p) upper) :
    ∃ b, ((nativeBetweenFilter toLowercase (some p) lower includeLower upper includeUpper
          caseSensitive).getD (.stat false)).evaluate toLowercase id object = some b ∧
      (b = true ↔ (∃ L, lowerReal lower includeLower = some L ∧ realOrder L ≤ realOrder x) ∧
        ∃ U, upperReal upper includeUpper = some U ∧ realOrder x ≤ realOrder U) := by
  cases type : p.dataType <;> simp only [storedReal, type, reduceCtorEq] at stored
  case float =>
    obtain ⟨v, read, rfl⟩ := Option.map_eq_some_iff.mp stored
    simp only [nativeBetweenFilter, type]
    refine evaluate_real_bounds fun L U first second => ?_
    obtain ⟨a, rfl⟩ := lowerReal_float hl.operand (hl.float (congrArg some type)) first
    obtain ⟨b, rfl⟩ := upperReal_float hu.operand (hu.float (congrArg some type)) second
    rw [evaluate_create type, ValueTest.evaluate, read, Option.map_some, float_test]
  case double =>
    simp only [nativeBetweenFilter, type]
    refine evaluate_real_bounds fun L U _ _ => ?_
    rw [evaluate_create type, ValueTest.evaluate, stored, Option.map_some]

theorem real_bounds_exact {p : NativeProperty} {x : F64} (comparison : t.isComparison = true)
    (stored : storedReal (some p) object = some x) (hl : FitsReal (some p) lower)
    (hu : FitsReal (some p) upper) :
    (comparisonFilter toLowercase (some p) t lower upper caseSensitive).evaluate toLowercase id
        object = some (decide (t.Compares (realOrder x) (realOrder (operandReal lower))
          (realOrder (operandReal upper)))) ↔
      RealExact t x (operandReal lower) := by
  have max : getMax (some p) = some (.real F64.infinity) := by
    cases type : p.dataType <;> simp only [storedReal, type, reduceCtorEq] at stored <;>
      simp [getMax, type]
  have hmax : FitsReal (some p) (some (.real F64.infinity)) :=
    fun _ => ⟨F32.infinity, toF64_infinity.symm⟩
  have least : realOrder (operandReal none) ≤ realOrder x ↔ True :=
    iff_true_intro (realOrder_nan ▸ bot_le)
  have hnone : FitsReal (some p) none := trivial
  have greatest := iff_true_intro (le_infinity x)
  unfold comparisonFilter
  rw [max]
  cases t with
  | equal =>
    refine (exact_iff_of_decides (decides_between true true stored hl hl)).trans ?_
    rw [lower_inclusive _ x hl.operand, upper_inclusive _ x hl.operand]
    exact iff_true_intro (and_comm.trans le_antisymm_iff.symm)
  | greater =>
    refine (exact_iff_of_decides (decides_between false true stored hl hmax)).trans ?_
    rw [upper_inclusive _ x hmax.operand, operandReal, greatest, and_true]
    exact lower_strict_exact _ x hl.operand
  | greaterOrEqual =>
    refine (exact_iff_of_decides (decides_between true true stored hl hmax)).trans ?_
    rw [lower_inclusive _ x hl.operand, upper_inclusive _ x hmax.operand, operandReal, greatest,
      and_true]
    exact iff_true_intro Iff.rfl
  | less =>
    refine (exact_iff_of_decides (decides_between true false stored hnone hl)).trans ?_
    rw [lower_inclusive _ x hnone.operand, least, true_and]
    exact upper_strict_exact _ x hl.operand
  | lessOrEqual =>
    refine (exact_iff_of_decides (decides_between true true stored hnone hl)).trans ?_
    rw [lower_inclusive _ x hnone.operand, upper_inclusive _ x hl.operand, least, true_and]
    exact iff_true_intro Iff.rfl
  | between =>
    refine (exact_iff_of_decides (decides_between true true stored hl hu)).trans ?_
    rw [lower_inclusive _ x hl.operand, upper_inclusive _ x hu.operand]
    exact iff_true_intro Iff.rfl
  | _ => cases comparison

/-- The compiled filter decides the comparison exactly on the inputs that `RealExact` describes. -/
theorem real_comparison_exact {condition : FilterCondition} {collection : NativeCollection}
    {all : List NativeCollection} {x : F64}
    (comparison : condition.conditionType.isComparison = true)
    (operands : condition.Operands lower upper)
    (hl : FitsReal (collection.getProperty condition.propertyIndex) lower)
    (hu : FitsReal (collection.getProperty condition.propertyIndex) upper)
    (stored : storedReal (collection.getProperty condition.propertyIndex) object = some x) :
    ((filterToNative toLowercase collection all (.condition condition)).bind fun filter =>
        filter.evaluate toLowercase id object) =
        some (decide (condition.conditionType.Compares (realOrder x)
          (realOrder (operandReal lower)) (realOrder (operandReal upper)))) ↔
      RealExact condition.conditionType x (operandReal lower) := by
  rw [filterToNative_comparison comparison operands, Option.bind_some]
  cases h : collection.getProperty condition.propertyIndex with
  | none =>
    rw [h] at stored
    cases stored
  | some p =>
    rw [h] at stored hl hu
    exact real_bounds_exact comparison stored hl hu

end

/-! ## A double -/

/-- A collection with a double property, and a condition on it. -/
def doubleCollection : NativeCollection :=
  .new 0 "doubles" (some "id") [("value", ⟨.double, 0, none⟩)] [] (some "doubles")

def doubleCondition (t : ConditionType) (operand : Option IsarValue) : FilterCondition :=
  { propertyIndex := 1, conditionType := t, values := [operand], caseSensitive := true }

theorem doubles_comparison_exact :
    ((filterToNative id doubleCollection []
          (.condition (doubleCondition .greater (some (.real (F64.ofInt 1)))))).bind fun filter =>
        filter.evaluate id 1 { bytes := f64Le (F64.ofInt 2), staticSize := 8 }) =
        some (decide (ConditionType.greater.Compares (realOrder (F64.ofInt 2))
          (realOrder (operandReal (some (.real (F64.ofInt 1)))))
          (realOrder (operandReal none)))) ↔
      RealExact .greater (F64.ofInt 2) (operandReal (some (.real (F64.ofInt 1)))) := by
  have operands : (doubleCondition .greater (some (.real (F64.ofInt 1)))).Operands
      (some (.real (F64.ofInt 1))) none := ⟨rfl, nofun⟩
  have fits : FitsReal (doubleCollection.getProperty 1) (some (.real (F64.ofInt 1))) := nofun
  have stored : storedReal (doubleCollection.getProperty 1)
      { bytes := f64Le (F64.ofInt 2), staticSize := 8 } = some (F64.ofInt 2) := by decide +kernel
  exact real_comparison_exact rfl operands fits trivial stored

/-- Less than 1 matches 1. -/
theorem doubles_less_at_operand :
    ((filterToNative id doubleCollection []
          (.condition (doubleCondition .less (some (.real (F64.ofInt 1)))))).bind fun filter =>
        filter.evaluate id 1 { bytes := f64Le (F64.ofInt 1), staticSize := 8 }) = some true ∧
      ¬ ConditionType.less.Compares (realOrder (F64.ofInt 1)) (realOrder (F64.ofInt 1))
        (realOrder F64.nan) :=
  ⟨by decide +kernel, fun less => lt_irrefl _ less⟩

end IsarPlus.Native
