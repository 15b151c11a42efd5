import IsarPlus.Lib.FloatScale
import IsarPlus.Lib.SelectSql
import Mathlib

/-!
# Sums of columns

`SUM` and `AVG` of SQLite. Integers are added as integers as long as no other number is among them;
other sums are those of Kahan, Babuska and Neumaier, with a running error term.
-/

namespace Sql
open Scalar

/-! ## Adding up -/

/-- The numbers that texts and blobs count as (`sqlite3_value_numeric_type`,
`sqlite3_value_double`). -/
structure Numerals where
  text : List Char → Int64 ⊕ F64
  blob : List UInt8 → F64

/-- What a value counts as, nothing if it is null. -/
def Numerals.number (numerals : Numerals) : Value → Option (Int64 ⊕ F64)
  | .null => none
  | .integer v => some (.inl v)
  | .real r => some (.inr r)
  | .text s => some (numerals.text s)
  | .blob bytes => some (.inr (numerals.blob bytes))

/-- `sqlite3IsOverflow`: an infinity or no number. -/
def isOverflow (r : F64) : Bool := 2047 * 2 ^ 52 ≤ r.magnitude

/-- An integer that may not be a float. -/
def isBig (v : Int64) : Bool := v.toInt ≤ -4503599627370496 || 4503599627370496 ≤ v.toInt

/-- The context of a sum or an average (`SumCtx`). -/
structure SumCtx where
  /-- The running sum as a float. -/
  rSum : F64
  /-- The error term. -/
  rErr : F64
  /-- The running sum as an integer. -/
  iSum : Int64
  /-- The number of values. -/
  cnt : Nat
  /-- A value was no integer, or the integers have overflown. -/
  approx : Bool
  ovrfl : Bool

namespace SumCtx

/-- A context is allocated with all bytes zero. -/
def new : SumCtx := ⟨⟨0⟩, ⟨0⟩, 0, 0, false, false⟩

/-- One step of the summation. -/
def kahanBabuskaNeumaierStep (p : SumCtx) (r : F64) : SumCtx :=
  let s := p.rSum
  let t := s.add r
  let err := if r.absLt s then (s.sub t).add r else (r.sub t).add s
  { p with rSum := t, rErr := p.rErr.add err }

/-- A big integer is added in two parts. -/
def kahanBabuskaNeumaierStepInt64 (p : SumCtx) (iVal : Int64) : SumCtx :=
  if isBig iVal then
    let iSm := iVal % 16384
    let iBig := iVal - iSm
    (p.kahanBabuskaNeumaierStep (F64.ofInt iBig.toInt)).kahanBabuskaNeumaierStep
      (F64.ofInt iSm.toInt)
  else p.kahanBabuskaNeumaierStep (F64.ofInt iVal.toInt)

/-- The summation begins with an integer. -/
def kahanBabuskaNeumaierInit (p : SumCtx) (iVal : Int64) : SumCtx :=
  if isBig iVal then
    let iSm := iVal % 16384
    { p with rSum := F64.ofInt (iVal - iSm).toInt, rErr := F64.ofInt iSm.toInt }
  else { p with rSum := F64.ofInt iVal.toInt, rErr := ⟨0⟩ }

/-- An integer in `sumStep`. -/
def stepInteger (p : SumCtx) (v : Int64) : SumCtx :=
  if p.approx then p.kahanBabuskaNeumaierStepInt64 v
  else if Fits (p.iSum.toInt + v.toInt) then { p with iSum := p.iSum + v }
  else
    { p.kahanBabuskaNeumaierInit p.iSum with approx := true, ovrfl := true }
      |>.kahanBabuskaNeumaierStepInt64 v

/-- Any other number in `sumStep`. -/
def stepReal (p : SumCtx) (r : F64) : SumCtx :=
  if p.approx then { p with ovrfl := false }.kahanBabuskaNeumaierStep r
  else { p.kahanBabuskaNeumaierInit p.iSum with approx := true }.kahanBabuskaNeumaierStep r

def counted (p : SumCtx) : SumCtx := { p with cnt := p.cnt + 1 }

/-- `sumStep`; nulls are skipped. -/
def step (numerals : Numerals) (p : SumCtx) (value : Value) : SumCtx :=
  match numerals.number value with
  | none => p
  | some (.inl v) => p.counted.stepInteger v
  | some (.inr r) => p.counted.stepReal r

/-- The sum of the floats with its error term, if there is one. -/
def realSum (p : SumCtx) : F64 := if isOverflow p.rErr then p.rSum else p.rSum.add p.rErr

end SumCtx

/-- `sqlite3_result_double`: what is no number becomes null. -/
def resultDouble (r : F64) : Value := if r.isNan then .null else .real r

/-- `sumFinalize`; `none` is an integer overflow. -/
def SumCtx.sumFinalize (p : SumCtx) : Option Value :=
  if p.cnt = 0 then some .null
  else if p.approx then if p.ovrfl then none else some (resultDouble p.realSum)
  else some (.integer p.iSum)

/-- The average before it becomes a value, if there is one. -/
def SumCtx.quotient (p : SumCtx) : Option F64 :=
  if p.cnt = 0 then none
  else some ((if p.approx then p.realSum else F64.ofInt p.iSum.toInt).div (F64.ofInt p.cnt))

/-- `avgFinalize`. -/
def SumCtx.avgFinalize (p : SumCtx) : Value := (p.quotient.map resultDouble).getD .null

section
variable (numerals : Numerals) (values : List Value)

/-- What the values are added up to. -/
def sumCtx : SumCtx := values.foldl (SumCtx.step numerals) .new

/-- `SUM`. -/
def sumOf : Option Value := (sumCtx numerals values).sumFinalize

/-- `AVG`. -/
def averageOf : Value := (sumCtx numerals values).avgFinalize

end

/-! ## What is added up -/

namespace SumCtx

/-- The steps of the summation leave the other fields alone. -/
structure SameCount (p p' : SumCtx) : Prop where
  iSum : p'.iSum = p.iSum
  cnt : p'.cnt = p.cnt
  approx : p'.approx = p.approx
  ovrfl : p'.ovrfl = p.ovrfl

theorem sameCount_stepInt64 (p : SumCtx) (v : Int64) :
    p.SameCount (p.kahanBabuskaNeumaierStepInt64 v) := by
  unfold kahanBabuskaNeumaierStepInt64
  split <;> exact ⟨rfl, rfl, rfl, rfl⟩

theorem sameCount_init (p : SumCtx) (v : Int64) : p.SameCount (p.kahanBabuskaNeumaierInit v) := by
  unfold kahanBabuskaNeumaierInit
  split <;> exact ⟨rfl, rfl, rfl, rfl⟩

@[simp] theorem cnt_stepInteger (p : SumCtx) (v : Int64) : (p.stepInteger v).cnt = p.cnt := by
  unfold stepInteger
  split
  · exact (sameCount_stepInt64 p v).cnt
  · split
    · rfl
    · exact (sameCount_stepInt64 _ v).cnt.trans (sameCount_init p p.iSum).cnt

@[simp] theorem cnt_stepReal (p : SumCtx) (r : F64) : (p.stepReal r).cnt = p.cnt := by
  unfold stepReal
  split
  · rfl
  · exact (sameCount_init p p.iSum).cnt

/-- Behind a float, integers do not overflow any more. -/
theorem stepReal_flags (p : SumCtx) (r : F64) (before : p.approx = false → p.ovrfl = false) :
    (p.stepReal r).approx = true ∧ (p.stepReal r).ovrfl = false := by
  unfold stepReal
  split
  · rename_i approx
    exact ⟨approx, rfl⟩
  · rename_i exact_
    exact ⟨rfl, (sameCount_init p p.iSum).ovrfl.trans (before (Bool.not_eq_true _ ▸ exact_))⟩

theorem stepInteger_of_approx {p : SumCtx} (approx : p.approx = true) (v : Int64) :
    (p.stepInteger v).approx = true ∧ (p.stepInteger v).ovrfl = p.ovrfl := by
  unfold stepInteger
  rw [if_pos approx]
  have same := sameCount_stepInt64 p v
  exact ⟨same.approx.trans approx, same.ovrfl⟩

theorem stepInteger_of_fits {p : SumCtx} (exact_ : p.approx = false) {v : Int64}
    (fits : Fits (p.iSum.toInt + v.toInt)) : p.stepInteger v = { p with iSum := p.iSum + v } := by
  unfold stepInteger
  rw [if_neg (by rw [exact_]; decide), if_pos fits]

theorem stepInteger_of_overflow {p : SumCtx} (exact_ : p.approx = false) {v : Int64}
    (overflow : ¬ Fits (p.iSum.toInt + v.toInt)) :
    (p.stepInteger v).approx = true ∧ (p.stepInteger v).ovrfl = true := by
  unfold stepInteger
  rw [if_neg (by rw [exact_]; decide), if_neg overflow]
  have same := sameCount_stepInt64
    { p.kahanBabuskaNeumaierInit p.iSum with approx := true, ovrfl := true } v
  exact ⟨same.approx, same.ovrfl⟩

end SumCtx

/-- Nulls, integers and floats. -/
def Value.isNumeric : Value → Bool
  | .null | .integer _ | .real _ => true
  | _ => false

/-- All values but the nulls are integers. -/
def AllIntegers (values : List Value) : Prop := ∀ v ∈ values, v ≠ .null → v.isInteger = true

instance (values : List Value) : Decidable (AllIntegers values) :=
  inferInstanceAs (Decidable (∀ v ∈ values, _))

theorem toInt_add_of_fits {v w : Int64} (fits : Fits (v.toInt + w.toInt)) :
    (v + w).toInt = v.toInt + w.toInt := by
  rw [Int64.toInt_add]
  exact Int.bmod_eq_of_le (by have := fits.1; omega) (by have := fits.2; omega)

theorem integers_append_integer (values : List Value) (v : Int64) :
    integers (values ++ [.integer v]) = integers values ++ [v] := List.filterMap_append

theorem partialFits_append {values : List Int64} {v : Int64} :
    PartialFits (values ++ [v]) ↔ PartialFits values ∧ Fits (total values + v.toInt) := by
  have whole : total (values ++ [v]) = total values + v.toInt := by
    simp [total]
  constructor
  · intro fits
    refine ⟨fun n le => ?_, ?_⟩
    · have part := fits n (by rw [List.length_append]; omega)
      rwa [List.take_append_of_le_length le] at part
    · have all := fits (values ++ [v]).length le_rfl
      rwa [List.take_length, whole] at all
  · rintro ⟨fits, last⟩ n le
    rw [List.length_append, List.length_singleton] at le
    by_cases short : n ≤ values.length
    · rw [List.take_append_of_le_length short]
      exact fits n short
    · have all : n = (values ++ [v]).length := by
        rw [List.length_append, List.length_singleton]
        omega
      rw [all, List.take_length, whole]
      exact last

/-- What the context says of the values that have been added up. -/
structure Added (values : List Value) (p : SumCtx) : Prop where
  count : p.cnt = (values.filter (· ≠ .null)).length
  whole : AllIntegers values → PartialFits (integers values) →
    p.approx = false ∧ p.ovrfl = false ∧ p.iSum.toInt = total (integers values)
  overflown : AllIntegers values → ¬ PartialFits (integers values) →
    p.approx = true ∧ p.ovrfl = true
  fraction : ¬ AllIntegers values → p.approx = true ∧ p.ovrfl = false

theorem allIntegers_append {values : List Value} {v : Value} :
    AllIntegers (values ++ [v]) ↔ AllIntegers values ∧ (v ≠ .null → v.isInteger = true) := by
  unfold AllIntegers
  rw [List.forall_mem_append]
  simp

variable {numerals : Numerals}

theorem Added.integer {values : List Value} {p : SumCtx} (h : Added values p) (v : Int64) :
    Added (values ++ [.integer v]) (p.step numerals (.integer v)) := by
  have integers_ : AllIntegers (values ++ [.integer v]) ↔ AllIntegers values :=
    allIntegers_append.trans (and_iff_left fun _ => rfl)
  have eq : p.step numerals (.integer v) = p.counted.stepInteger v := rfl
  rw [eq]
  refine ⟨?_, fun all fits => ?_, fun all overflow => ?_, fun other => ?_⟩
  · rw [SumCtx.cnt_stepInteger, SumCtx.counted, h.count, List.filter_append]
    simp
  · rw [integers_append_integer, partialFits_append] at fits
    obtain ⟨exact_, flag, sum⟩ := h.whole (integers_.mp all) fits.1
    have next : Fits (p.counted.iSum.toInt + v.toInt) := by
      rw [show p.counted.iSum = p.iSum from rfl, sum]
      exact fits.2
    rw [@SumCtx.stepInteger_of_fits p.counted exact_ _ next, integers_append_integer]
    refine ⟨exact_, flag, ?_⟩
    refine (toInt_add_of_fits next).trans ?_
    rw [show p.counted.iSum = p.iSum from rfl, sum]
    simp [total]
  · rw [integers_append_integer, partialFits_append] at overflow
    by_cases fits : PartialFits (integers values)
    · obtain ⟨exact_, -, sum⟩ := h.whole (integers_.mp all) fits
      have next : ¬ Fits (p.counted.iSum.toInt + v.toInt) := by
        rw [show p.counted.iSum = p.iSum from rfl, sum]
        exact fun next => overflow ⟨fits, next⟩
      exact @SumCtx.stepInteger_of_overflow p.counted exact_ _ next
    · obtain ⟨approx, flag⟩ := h.overflown (integers_.mp all) fits
      obtain ⟨approx', flag'⟩ := @SumCtx.stepInteger_of_approx p.counted approx v
      exact ⟨approx', flag'.trans flag⟩
  · obtain ⟨approx, flag⟩ := h.fraction fun all => other (integers_.mpr all)
    obtain ⟨approx', flag'⟩ := @SumCtx.stepInteger_of_approx p.counted approx v
    exact ⟨approx', flag'.trans flag⟩

theorem Added.real {values : List Value} {p : SumCtx} (h : Added values p) (r : F64) :
    Added (values ++ [.real r]) (p.step numerals (.real r)) := by
  have none_ : ¬ AllIntegers (values ++ [.real r]) := by
    intro all
    cases (allIntegers_append.mp all).2 (by simp)
  have eq : p.step numerals (.real r) = p.counted.stepReal r := rfl
  rw [eq]
  refine ⟨?_, fun all => absurd all none_, fun all => absurd all none_, fun _ => ?_⟩
  · rw [SumCtx.cnt_stepReal, SumCtx.counted, h.count, List.filter_append]
    simp
  · refine SumCtx.stepReal_flags _ r fun exact_ => ?_
    by_cases all : AllIntegers values
    · by_cases fits : PartialFits (integers values)
      · exact (h.whole all fits).2.1
      · have approx := (h.overflown all fits).1
        rw [show p.approx = false from exact_] at approx
        cases approx
    · exact (h.fraction all).2

/-- The context of a list of numbers, by what the numbers are. -/
theorem added_sumCtx {values : List Value} (numeric : ∀ v ∈ values, v.isNumeric = true) :
    Added values (sumCtx numerals values) := by
  induction values using List.reverseRecOn with
  | nil =>
    exact ⟨rfl, fun _ _ => ⟨rfl, rfl, rfl⟩, fun _ overflow => absurd (by decide) overflow,
      fun other => absurd nofun other⟩
  | append_singleton values v ih =>
    rw [List.forall_mem_append, List.forall_mem_singleton] at numeric
    have before := ih numeric.1
    have last : sumCtx numerals (values ++ [v]) = (sumCtx numerals values).step numerals v :=
      List.foldl_append
    rw [last]
    cases v with
    | integer v => exact before.integer v
    | real r => exact before.real r
    | null =>
      have filtered : (values ++ [Value.null]).filter (· ≠ .null) = values.filter (· ≠ .null) := by
        simp
      have integers_ : integers (values ++ [Value.null]) = integers values := by
        simp [integers]
      have all : AllIntegers (values ++ [.null]) ↔ AllIntegers values :=
        allIntegers_append.trans (and_iff_left fun h => absurd rfl h)
      exact ⟨by rw [filtered]; exact before.count,
        fun h fits => integers_ ▸ before.whole (all.mp h) (integers_ ▸ fits),
        fun h overflow => before.overflown (all.mp h) (integers_ ▸ overflow),
        fun other => before.fraction fun h => other (all.mpr h)⟩
    | text s => cases numeric.2
    | blob bytes => cases numeric.2

/-- The sum of numbers: null of none, the exact sum of integers or an error where it overflows on the
way, and the sum of floats otherwise. -/
theorem sumOf_cases {values : List Value} (numeric : ∀ v ∈ values, v.isNumeric = true) :
    (AllIntegers values ∧ ¬ PartialFits (integers values) ∧ sumOf numerals values = none) ∨
      (AllIntegers values ∧ PartialFits (integers values) ∧ ∃ v, sumOf numerals values = some v ∧
        (v = .null ∧ integers values = [] ∨
          ∃ n : Int64, v = .integer n ∧ n.toInt = total (integers values))) ∨
      (¬ AllIntegers values ∧
        sumOf numerals values = some (resultDouble (sumCtx numerals values).realSum)) := by
  have added := @added_sumCtx numerals _ numeric
  unfold sumOf SumCtx.sumFinalize
  by_cases all : AllIntegers values
  · by_cases empty : (sumCtx numerals values).cnt = 0
    · have none_ : integers values = [] := by
        rw [added.count, List.length_eq_zero_iff, List.filter_eq_nil_iff] at empty
        refine List.filterMap_eq_nil_iff.mpr fun v mem => ?_
        have null := empty v mem
        rw [decide_eq_true_eq, not_not] at null
        rw [null]
      refine Or.inr (Or.inl ⟨all, ?_, .null, if_pos empty, Or.inl ⟨rfl, none_⟩⟩)
      rw [none_]
      decide
    · rw [if_neg empty]
      by_cases fits : PartialFits (integers values)
      · obtain ⟨exact_, -, sum⟩ := added.whole all fits
        rw [if_neg (by rw [exact_]; decide)]
        exact Or.inr (Or.inl ⟨all, fits, _, rfl, Or.inr ⟨_, rfl, sum⟩⟩)
      · obtain ⟨approx, overflown⟩ := added.overflown all fits
        rw [if_pos approx, if_pos overflown]
        exact Or.inl ⟨all, fits, rfl⟩
  · obtain ⟨approx, exact_⟩ := added.fraction all
    have some_ : (sumCtx numerals values).cnt ≠ 0 := by
      intro empty
      rw [added.count, List.length_eq_zero_iff, List.filter_eq_nil_iff] at empty
      exact all fun v mem null => absurd (decide_eq_true null) (empty v mem)
    rw [if_neg some_, if_pos approx, if_neg (by rw [exact_]; decide)]
    exact Or.inr (Or.inr ⟨all, rfl⟩)

/-! ## Sums that are numbers -/

/-- No float among the values is infinite or no number. -/
def AllFinite (values : List Value) : Prop :=
  ∀ r, Value.real r ∈ values → r.magnitude < 2047 * 2 ^ 52

namespace SumCtx

theorem finite_ofInt64 (v : Int64) : (F64.ofInt v.toInt).magnitude < 2047 * 2 ^ 52 := by
  have low := v.le_toInt
  have high := v.toInt_lt
  exact (F64.ofInt_finite (by omega)).1

theorem isNan_stepInt64 {p : SumCtx} (number : p.rSum.isNan = false) (v : Int64) :
    (p.kahanBabuskaNeumaierStepInt64 v).rSum.isNan = false := by
  unfold kahanBabuskaNeumaierStepInt64
  split
  · exact F64.isNan_add (F64.isNan_add number (finite_ofInt64 _)) (finite_ofInt64 _)
  · exact F64.isNan_add number (finite_ofInt64 _)

theorem isNan_init (p : SumCtx) (v : Int64) :
    (p.kahanBabuskaNeumaierInit v).rSum.isNan = false := by
  unfold kahanBabuskaNeumaierInit
  split <;> exact (F64.not_nan_of_finite (finite_ofInt64 _)).1

theorem isNan_stepInteger {p : SumCtx} (number : p.rSum.isNan = false) (v : Int64) :
    (p.stepInteger v).rSum.isNan = false := by
  unfold stepInteger
  split
  · exact isNan_stepInt64 number v
  · split
    · exact number
    · have begun : ({ p.kahanBabuskaNeumaierInit p.iSum with
          approx := true, ovrfl := true } : SumCtx).rSum.isNan = false := isNan_init p p.iSum
      exact isNan_stepInt64 begun v

theorem isNan_stepReal {p : SumCtx} (number : p.rSum.isNan = false) {r : F64}
    (finite : r.magnitude < 2047 * 2 ^ 52) : (p.stepReal r).rSum.isNan = false := by
  unfold stepReal
  split
  · exact F64.isNan_add number finite
  · exact F64.isNan_add (isNan_init p p.iSum) finite

/-- A finite value keeps the running sum a number. -/
theorem isNan_step {p : SumCtx} (number : p.rSum.isNan = false) {v : Value}
    (numeric : v.isNumeric = true) (finite : AllFinite [v]) :
    (p.step numerals v).rSum.isNan = false := by
  have counted_ : p.counted.rSum.isNan = false := number
  cases v with
  | null => exact number
  | integer v => exact isNan_stepInteger counted_ v
  | real r => exact isNan_stepReal counted_ (finite r (List.mem_singleton_self _))
  | text s => cases numeric
  | blob bytes => cases numeric

/-- A sum of finite values is a number. -/
theorem isNan_realSum {values : List Value} (numeric : ∀ v ∈ values, v.isNumeric = true)
    (finite : AllFinite values) : (sumCtx numerals values).realSum.isNan = false := by
  have number : (sumCtx numerals values).rSum.isNan = false := by
    induction values using List.reverseRecOn with
    | nil => rfl
    | append_singleton values v ih =>
      rw [List.forall_mem_append, List.forall_mem_singleton] at numeric
      have last : sumCtx numerals (values ++ [v]) = (sumCtx numerals values).step numerals v :=
        List.foldl_append
      rw [last]
      exact isNan_step
        (ih numeric.1 fun r mem => finite r (List.mem_append_left _ mem)) numeric.2
        fun r mem => finite r (List.mem_append_right _ mem)
  unfold realSum
  split
  · exact number
  · rename_i ok
    exact F64.isNan_add number (not_le.mp fun le => ok (decide_eq_true le))

/-- An average of finite values is a number. -/
theorem isNan_quotient {values : List Value} (numeric : ∀ v ∈ values, v.isNumeric = true)
    (finite : AllFinite values) (few : values.length < 2 ^ 63) {r : F64}
    (average : (sumCtx numerals values).quotient = some r) : r.isNan = false := by
  have count := (@added_sumCtx numerals _ numeric).count
  have le := List.length_filter_le (fun v => decide (v ≠ Value.null)) values
  unfold quotient at average
  split at average
  · cases average
  · rename_i some_
    cases average
    obtain ⟨finiteCount, nonzero⟩ := @F64.ofInt_finite (sumCtx numerals values).cnt (by omega)
    refine F64.isNan_div ?_ finiteCount (nonzero (by omega))
    split
    · exact isNan_realSum numeric finite
    · exact (F64.not_nan_of_finite (finite_ofInt64 _)).1

/-! ## Infinite sums -/

/-- The sum and the error term are infinite or no numbers. -/
def Overflown (p : SumCtx) : Prop := isOverflow p.rSum = true ∧ isOverflow p.rErr = true

theorem isOverflow_add {a b : F64} (overflow : isOverflow a = true ∨ isOverflow b = true) :
    isOverflow (a.add b) = true := by
  rw [isOverflow, isOverflow, decide_eq_true_eq, decide_eq_true_eq] at overflow
  exact decide_eq_true (F64.add_overflow overflow)

theorem overflown_kahanStep {p : SumCtx} {r : F64}
    (overflow : isOverflow p.rSum = true ∨ isOverflow r = true) :
    (p.kahanBabuskaNeumaierStep r).Overflown := by
  have sum : isOverflow (p.rSum.add r) = true := isOverflow_add overflow
  have negated : isOverflow (p.rSum.add r).neg = true := by
    rw [isOverflow, F64.magnitude_neg]
    exact sum
  refine ⟨sum, isOverflow_add (Or.inr ?_)⟩
  split <;> exact isOverflow_add (Or.inl (isOverflow_add (Or.inr negated)))

theorem overflown_stepInteger {p : SumCtx} (approx : p.approx = true) (overflow : p.Overflown)
    (v : Int64) : (p.stepInteger v).Overflown := by
  unfold stepInteger kahanBabuskaNeumaierStepInt64
  rw [if_pos approx]
  split
  · exact overflown_kahanStep (Or.inl (overflown_kahanStep (Or.inl overflow.1)).1)
  · exact overflown_kahanStep (Or.inl overflow.1)

theorem overflown_stepReal {p : SumCtx} {r : F64}
    (overflow : p.approx = true ∧ p.Overflown ∨ isOverflow r = true) :
    (p.stepReal r).Overflown := by
  unfold stepReal
  split
  · exact overflown_kahanStep (overflow.imp_left fun before => before.2.1)
  · rename_i exact_
    rcases overflow with ⟨approx, -⟩ | last
    · exact absurd approx exact_
    · exact overflown_kahanStep (Or.inr last)

/-- A sum with an infinite value is infinite or no number, in whatever order it is added up. -/
theorem isOverflow_realSum {values : List Value} (numeric : ∀ v ∈ values, v.isNumeric = true)
    (infinite : ¬ AllFinite values) : isOverflow (sumCtx numerals values).realSum = true := by
  have overflown : (sumCtx numerals values).approx = true ∧ (sumCtx numerals values).Overflown := by
    induction values using List.reverseRecOn with
    | nil => exact absurd (fun _ mem => absurd mem List.not_mem_nil) infinite
    | append_singleton values v ih =>
      rw [List.forall_mem_append, List.forall_mem_singleton] at numeric
      have last : sumCtx numerals (values ++ [v]) = (sumCtx numerals values).step numerals v :=
        List.foldl_append
      have before (same : ∀ r, v = .real r → r.magnitude < 2047 * 2 ^ 52) :
          ¬ AllFinite values := by
        refine fun finite => infinite fun r mem => ?_
        rcases List.mem_append.mp mem with old | new
        · exact finite r old
        · exact same r (List.mem_singleton.mp new).symm
      rw [last]
      cases v with
      | null => exact ih numeric.1 (before nofun)
      | integer v =>
        obtain ⟨approx, overflow⟩ := ih numeric.1 (before nofun)
        exact ⟨(@stepInteger_of_approx (sumCtx numerals values).counted approx v).1,
          @overflown_stepInteger (sumCtx numerals values).counted approx overflow v⟩
      | real r =>
        have flags : Added (values ++ [.real r])
            ((sumCtx numerals values).step numerals (.real r)) :=
          (added_sumCtx numeric.1).real r
        have none_ : ¬ AllIntegers (values ++ [.real r]) := by
          intro all
          cases (allIntegers_append.mp all).2 (by simp)
        refine ⟨(flags.fraction none_).1,
          @overflown_stepReal (sumCtx numerals values).counted r ?_⟩
        by_cases finite : r.magnitude < 2047 * 2 ^ 52
        · refine Or.inl (ih numeric.1 (before fun s same => ?_))
          cases same
          exact finite
        · exact Or.inr (decide_eq_true (not_lt.mp finite))
      | text s => cases numeric.2
      | blob bytes => cases numeric.2
  rw [realSum, if_pos overflown.2.2]
  exact overflown.2.1

end SumCtx

/-- Opposite infinities have no sum, and small values are not lost among large ones. -/
example : sumOf ⟨fun _ => .inl 0, fun _ => ⟨0⟩⟩ [.real F64.infinity, .real F64.infinity.neg] =
    some .null := by decide +kernel

example : sumOf ⟨fun _ => .inl 0, fun _ => ⟨0⟩⟩
    [.real ⟨0x4b3fcbf7d8d2d2d2⟩, .integer 1, .null, .real ⟨0xcb3fcbf7d8d2d2d2⟩] =
      some (.real (F64.ofInt 1)) := by decide +kernel

end Sql
