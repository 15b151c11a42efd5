import IsarPlus.Sqlite.Proofs.BuiltQueries
import IsarPlus.Sqlite.Proofs.HeldValues

/-!
# Aggregations of queries

An aggregation reads the first row of its statement. Without `GROUP BY` it ranges over the rows of
the query, and with it over the first group only, while the cursor returns a row of every group.
-/

namespace IsarPlus.Sqlite
open Scalar Sql
open Native (Aggregation IsExtreme)

/-! ## The values of a property -/

def columnValues (name : String) (rows : TableRows Row) : List Value :=
  rows.map fun row => rowColumn row name

def propertyValues (t : DataType) (values : List Value) : List IsarValue :=
  values.filterMap (heldValue t)

/-- An aggregation with a property has the values of its type to range over. -/
def Applies (aggregation : Aggregation) (t : DataType) (values : List Value) : Prop :=
  match aggregation with
  | .count | .isEmpty => True
  | .min | .max => ∀ v ∈ values, HeldAs t v
  | .sum | .average => t ∈ [.byte, .int, .long, .float, .double] ∧ ∀ v ∈ values, HeldAs t v

/-- The sum of floats, which is exact where they are integers. -/
def floatSum (numerals : Numerals) (values : List Value) : F64 :=
  if AllIntegers values then F64.ofInt (total (integers values))
  else (sumCtx numerals values).realSum

/-- The average of numbers, if there are any. -/
def average (numerals : Numerals) (values : List Value) : Option F64 :=
  (sumCtx numerals values).quotient

/-- The result is that of the rows of the cursor. Floats are added as SQLite adds them; the order in
which it does is left open. -/
def Agrees (numerals : Numerals) (aggregation : Aggregation) (t : DataType) (name : String)
    (returned : TableRows Row) (result : Option (Option IsarValue)) : Prop :=
  let values := columnValues name returned
  match aggregation with
  | .count => result = some (some (.integer (Int64.ofNat returned.length)))
  | .isEmpty => result = some (some (.bool returned.isEmpty))
  | .min => ∃ v, result = some v ∧ IsExtreme true (propertyValues t values) v
  | .max => ∃ v, result = some v ∧ IsExtreme false (propertyValues t values) v
  | .sum =>
    if IsReal t then
      ∃ values', values'.Perm values ∧ result = some (some (.real (floatSum numerals values')))
    else ∃ v, result = some (some (.integer v)) ∧ v.toInt = total (integers values)
  | .average =>
    ∃ values', values'.Perm values ∧ result = some ((average numerals values').map .real)

/-- What is no number is shown as zero by a sum, and not at all by an average. -/
def shownSum (r : F64) : F64 := if r.isNan then ⟨0⟩ else r

def shownAverage (r : Option F64) : Option F64 := r.filter fun r => !r.isNan

/-- No infinities cancel out: the sum or the average of floats is a number. -/
def IsNumber (numerals : Numerals) (aggregation : Aggregation) (t : DataType)
    (values : List Value) : Prop :=
  match aggregation with
  | .sum => IsReal t → (floatSum numerals values).isNan = false
  | .average => ∀ r, average numerals values = some r → r.isNan = false
  | _ => True

/-- Two lists of rows have the same number, extreme value, sum or average. -/
def SameAggregate (numerals : Numerals) (aggregation : Aggregation) (t : DataType) (name : String)
    (first returned : TableRows Row) : Prop :=
  let values := columnValues name first
  let others := columnValues name returned
  match aggregation with
  | .count => Int64.ofNat first.length = Int64.ofNat returned.length
  | .isEmpty => True
  | .min => ∃ v, IsExtreme true (propertyValues t values) v ∧
      IsExtreme true (propertyValues t others) v
  | .max => ∃ v, IsExtreme false (propertyValues t values) v ∧
      IsExtreme false (propertyValues t others) v
  | .sum =>
    if IsReal t then
      ∃ others', others'.Perm others ∧
        shownSum (floatSum numerals values) = floatSum numerals others'
    else total (integers values) = total (integers others)
  | .average => ∃ others', others'.Perm others ∧
      shownAverage (average numerals values) = average numerals others'

/-- No sum of integers overflows on the way. -/
def SumFits (aggregation : Aggregation) (values : List Value) : Prop :=
  aggregation = .sum → AllIntegers values → PartialFits (integers values)

/-! ## Values -/

theorem total_perm {values others : List Value} (perm : values.Perm others) :
    total (integers values) = total (integers others) :=
  ((perm.filterMap _).map _).sum_eq

theorem mem_propertyValues {t : DataType} {values : List Value} {x : IsarValue} :
    x ∈ propertyValues t values ↔ ∃ v ∈ values, heldValue t v = some x := List.mem_filterMap

theorem swap_cmp_ne {isMin : Bool} {o : Ordering} (h : o ≠ if isMin then .gt else .lt) :
    o = Native.minMaxCmp isMin ∨ o = .eq := by
  cases isMin <;> cases o <;> simp_all [Native.minMaxCmp]

/-- `MIN` and `MAX` find the least and the greatest value of a property. -/
theorem isExtreme_extreme {t : DataType} {isMin : Bool} {values : List Value}
    (held : ∀ v ∈ values, HeldAs t v) :
    HeldAs t (extreme isMin values) ∧
      IsExtreme isMin (propertyValues t values) (heldValue t (extreme isMin values)) := by
  have best : IsBest columnKey isMin values (extreme isMin values) :=
    isBest_extreme fun a memA b memB someA someB =>
      (ordered_of_held (held a memA) (held b memB) someA someB).compare
  generalize extreme isMin values = v at best
  by_cases null : v = .null
  · rw [null]
    refine ⟨Or.inl rfl, List.filterMap_eq_nil_iff.mpr fun w mem => ?_⟩
    by_cases some_ : w = .null
    · rw [some_]
      rfl
    · exact absurd null (best.least w mem some_).1
  · have mem := best.mem null
    have heldV := held v mem
    refine ⟨heldV, ?_⟩
    obtain ⟨-, x, -, eq, -⟩ := ordered_of_held heldV heldV null null
    rw [eq]
    refine ⟨mem_propertyValues.mpr ⟨v, mem, eq⟩, fun y memY => ?_⟩
    obtain ⟨w, memW, eqW⟩ := mem_propertyValues.mp memY
    have some_ : w ≠ .null := by
      rintro rfl
      cases eqW
    obtain ⟨-, x', y', eq', eqW', order⟩ := ordered_of_held heldV (held w memW) null some_
    obtain rfl := Option.some.inj (eq.symm.trans eq')
    obtain rfl := Option.some.inj (eqW.symm.trans eqW')
    rw [order, Option.some.injEq, Option.some.injEq]
    exact swap_cmp_ne (best.least w memW some_).2

/-- There is only one extreme. -/
theorem isExtreme_unique {t : DataType} {isMin : Bool} {values : List Value}
    (held : ∀ v ∈ values, HeldAs t v) {x y : Option IsarValue}
    (hx : IsExtreme isMin (propertyValues t values) x)
    (hy : IsExtreme isMin (propertyValues t values) y) : x = y := by
  cases x with
  | none =>
    cases y with
    | none => rfl
    | some y =>
      rw [show propertyValues t values = [] from hx] at hy
      cases hy.1
  | some x =>
    cases y with
    | none =>
      rw [show propertyValues t values = [] from hy] at hx
      cases hx.1
    | some y =>
      obtain ⟨v, memV, eqV⟩ := mem_propertyValues.mp hx.1
      obtain ⟨w, memW, eqW⟩ := mem_propertyValues.mp hy.1
      have someV : v ≠ .null := by
        rintro rfl
        cases eqV
      have someW : w ≠ .null := by
        rintro rfl
        cases eqW
      have less := hx.2 y hy.1
      have more := hy.2 x hx.1
      obtain ⟨-, x', y', eqV', eqW', order⟩ :=
        ordered_of_held (held v memV) (held w memW) someV someW
      obtain ⟨-, y'', x'', eqW'', eqV'', order'⟩ :=
        ordered_of_held (held w memW) (held v memV) someW someV
      obtain rfl := Option.some.inj (eqV.symm.trans eqV')
      obtain rfl := Option.some.inj (eqW.symm.trans eqW')
      obtain rfl := Option.some.inj (eqV.symm.trans eqV'')
      obtain rfl := Option.some.inj (eqW.symm.trans eqW'')
      rw [order, Option.some.injEq, Option.some.injEq] at less
      rw [order', Option.some.injEq, Option.some.injEq, ← cmp_swap (columnKey v)] at more
      have same : cmp (columnKey v) (columnKey w) = .eq := by
        rcases less with lt | eq
        · rw [lt] at more
          cases isMin <;> simp [Native.minMaxCmp, Ordering.swap] at more
        · exact eq
      have key := (cmp_eq_eq_iff _ _).mp same
      obtain rfl := eq_of_columnKey (held v memV) (held w memW) someV someW key
      exact eqV.symm.trans eqW

/-! ## The result of the first row -/

section
variable {casts : Casts} {numerals : Numerals} {c : SQLiteCollection} {propertyIndex : Option UInt16}

/-- The property of an aggregation; without one it is the id. -/
def aggregatedName (c : SQLiteCollection) (propertyIndex : Option UInt16) : String :=
  c.getPropertyName (propertyIndex.getD 0)

def aggregatedType (c : SQLiteCollection) (propertyIndex : Option UInt16) : DataType :=
  ((c.getProperty (propertyIndex.getD 0)).map SQLiteProperty.dataType).getD .long

/-- Where there is no row, the result is that of no rows. -/
theorem aggregate_eq_first {aggregation : Aggregation} (counted : aggregation ≠ .isEmpty)
    (groups : List (TableRows Row)) (selected : TableRows Row) :
    aggregate casts numerals c aggregation propertyIndex groups selected =
      (aggregationSql numerals aggregation (aggregatedName c propertyIndex)
        (groups.head?.getD [])).map fun value =>
          aggregateResult casts aggregation (aggregatedType c propertyIndex) (some value) := by
  unfold aggregate
  simp only [if_neg counted]
  cases groups with
  | nil => cases aggregation <;> first | rfl | exact absurd rfl counted
  | cons first groups => rfl

theorem aggregateResult_extreme {t : DataType} {v : Value} (held : HeldAs t v) (isMin : Bool) :
    aggregateResult casts (if isMin then .min else .max) t (some v) = heldValue t v := by
  by_cases null : v = .null
  · rw [null]
    cases isMin <;> rfl
  · have value := held.resolve_left null
    by_cases real : IsReal t
    · rcases heldAs_real real held null with ⟨n, rfl, -⟩ | ⟨r, rfl, -⟩ <;>
        rcases real with rfl | rfl <;> cases isMin <;> rfl
    · cases t with
      | byte | int | long =>
        obtain ⟨n, rfl⟩ := value
        cases isMin <;> rfl
      | float => exact absurd (Or.inl rfl) real
      | double => exact absurd (Or.inr rfl) real
      | string =>
        obtain ⟨s, rfl⟩ := value
        cases isMin <;> rfl
      | _ => cases value

/-- The average that is read is the one of the column, if it is a number. -/
theorem aggregateResult_average (t : DataType) (values : List Value) :
    aggregateResult casts .average t (some (averageOf numerals values)) =
      (shownAverage (average numerals values)).map .real := by
  unfold averageOf SumCtx.avgFinalize average
  cases (sumCtx numerals values).quotient with
  | none => rfl
  | some r =>
    show aggregateResult casts .average t (some (resultDouble r)) = _
    unfold resultDouble shownAverage
    cases number : r.isNan <;> simp [Option.filter, number] <;> rfl

/-! ## Sums -/

/-- The columns of numbers hold numbers. -/
theorem numeric_of_held {t : DataType} (numeric : t ∈ [DataType.byte, .int, .long, .float, .double])
    {values : List Value} (held : ∀ v ∈ values, HeldAs t v) :
    ∀ v ∈ values, v.isNumeric = true := by
  intro v mem
  by_cases null : v = .null
  · rw [null]
    rfl
  have value := (held v mem).resolve_left null
  by_cases real : IsReal t
  · rcases heldAs_real real (held v mem) null with ⟨n, rfl, -⟩ | ⟨r, rfl, -⟩ <;> rfl
  · cases t with
    | byte | int | long =>
      obtain ⟨n, rfl⟩ := value
      rfl
    | float => exact absurd (Or.inl rfl) real
    | double => exact absurd (Or.inr rfl) real
    | _ => simp at numeric

theorem integer_of_held {t : DataType} (numeric : t ∈ [DataType.byte, .int, .long, .float, .double])
    (whole : ¬ IsReal t) {values : List Value} (held : ∀ v ∈ values, HeldAs t v) :
    AllIntegers values := by
  intro v mem some_
  have value := (held v mem).resolve_left some_
  cases t with
  | byte | int | long =>
    obtain ⟨n, rfl⟩ := value
    rfl
  | float => exact absurd (Or.inl rfl) whole
  | double => exact absurd (Or.inr rfl) whole
  | _ => simp at numeric

/-- The sum of a column of integers. -/
theorem aggregateResult_sum_integer {t : DataType}
    (numeric : t ∈ [DataType.byte, .int, .long, .float, .double]) (whole : ¬ IsReal t)
    {values : List Value} (held : ∀ v ∈ values, HeldAs t v) (fits : SumFits .sum values) :
    ∃ v, (sumOf numerals values).map (fun value => aggregateResult casts .sum t (some value)) =
      some (some (.integer v)) ∧ v.toInt = total (integers values) := by
  have all := integer_of_held numeric whole held
  have integer (n : Int64) : aggregateResult casts .sum t (some (.integer n)) =
      some (.integer n) := by
    cases t with
    | byte | int | long => rfl
    | float => exact absurd (Or.inl rfl) whole
    | double => exact absurd (Or.inr rfl) whole
    | _ => simp at numeric
  have zero : aggregateResult casts .sum t (some .null) = some (.integer 0) := by
    cases t with
    | byte | int | long => rfl
    | float => exact absurd (Or.inl rfl) whole
    | double => exact absurd (Or.inr rfl) whole
    | _ => simp at numeric
  rcases @sumOf_cases numerals _ (numeric_of_held numeric held) with
    ⟨-, overflows, -⟩ | ⟨-, -, value, eq, result⟩ | ⟨other, -⟩
  · exact absurd (fits rfl all) overflows
  · rw [eq]
    rcases result with ⟨rfl, none_⟩ | ⟨n, rfl, sum⟩
    · refine ⟨0, congrArg some zero, ?_⟩
      rw [none_]
      rfl
    · exact ⟨n, congrArg some (integer n), sum⟩
  · exact absurd all other

theorem isNan_total {values : List Int64} (fits : PartialFits values) :
    (F64.ofInt (total values)).isNan = false := by
  have whole := fits values.length le_rfl
  rw [List.take_length] at whole
  have bound : (total values).natAbs < 2 ^ 64 := by
    have := whole.1
    have := whole.2
    omega
  exact (F64.not_nan_of_finite (F64.ofInt_finite bound).1).1

/-- The sum of a column of floats. -/
theorem aggregateResult_sum_real {t : DataType} (real : IsReal t) {values : List Value}
    (held : ∀ v ∈ values, v.isNumeric = true) (fits : SumFits .sum values) :
    (sumOf numerals values).map (fun value => aggregateResult casts .sum t (some value)) =
      some (some (.real (shownSum (floatSum numerals values)))) := by
  have double (v : Value) : aggregateResult casts .sum t (some v) =
      some (.real ((⟨casts, [v]⟩ : SQLiteStatement).getDouble 0)) := by
    rcases real with rfl | rfl <;> rfl
  unfold floatSum
  rcases @sumOf_cases numerals _ held with
    ⟨all, overflows, -⟩ | ⟨all, partial_, value, eq, result⟩ | ⟨other, eq⟩
  · exact absurd (fits rfl all) overflows
  · rw [eq, if_pos all, shownSum, isNan_total partial_, if_neg (by decide), Option.map_some, double]
    rcases result with ⟨rfl, none_⟩ | ⟨n, rfl, sum⟩
    · rw [none_]
      rfl
    · rw [← sum]
      rfl
  · rw [eq, if_neg other, Option.map_some, double]
    unfold resultDouble shownSum
    cases number : (sumCtx numerals values).realSum.isNan with
    | true => rfl
    | false => rfl

/-- The sum and the average of finite values are numbers. -/
theorem isNumber_of_finite {aggregation : Aggregation} {t : DataType} {values : List Value}
    (numeric : ∀ v ∈ values, v.isNumeric = true) (finite : AllFinite values)
    (few : values.length < 2 ^ 63) (fits : SumFits aggregation values) :
    IsNumber numerals aggregation t values := by
  cases aggregation with
  | sum =>
    intro real
    unfold floatSum
    by_cases all : AllIntegers values
    · rw [if_pos all]
      exact isNan_total (fits rfl all)
    · rw [if_neg all]
      exact SumCtx.isNan_realSum numeric finite
  | average => exact fun r average => SumCtx.isNan_quotient numeric finite few average
  | _ => trivial

end

/-! ## Agreement -/

section
variable {casts : Casts} {numerals : Numerals} {c : SQLiteCollection} {propertyIndex : Option UInt16}

theorem head_eq {rows : TableRows Row} (aggregation : Aggregation) (name : String) :
    aggregationSql numerals aggregation name rows = match aggregation with
      | .count => some (.integer (Int64.ofNat rows.length))
      | .isEmpty => rows.head?.map fun row => rowColumn row idColumn
      | .min => some (extreme true (columnValues name rows))
      | .max => some (extreme false (columnValues name rows))
      | .sum => sumOf numerals (columnValues name rows)
      | .average => some (averageOf numerals (columnValues name rows)) := by
  cases aggregation <;> rfl

/-- An aggregation agrees with the rows of the cursor just when its group does. -/
theorem agrees_first_iff {aggregation : Aggregation} (counted : aggregation ≠ .isEmpty)
    {t : DataType} {name : String} {first returned : TableRows Row}
    (applies : Applies aggregation t (columnValues name first)) :
    Agrees numerals aggregation t name returned
        ((aggregationSql numerals aggregation name first).map fun value =>
          aggregateResult casts aggregation t (some value)) ↔
      SameAggregate numerals aggregation t name first returned ∧
        SumFits aggregation (columnValues name first) := by
  rw [head_eq]
  have extreme_iff (isMin : Bool) (held : ∀ v ∈ columnValues name first, HeldAs t v) :
      (∃ v, some (aggregateResult casts (if isMin then .min else .max) t
            (some (extreme isMin (columnValues name first)))) = some v ∧
          IsExtreme isMin (propertyValues t (columnValues name returned)) v) ↔
        ∃ v, IsExtreme isMin (propertyValues t (columnValues name first)) v ∧
          IsExtreme isMin (propertyValues t (columnValues name returned)) v := by
    obtain ⟨heldV, best⟩ := @isExtreme_extreme t isMin _ held
    rw [aggregateResult_extreme heldV]
    constructor
    · intro ⟨v, eq, other⟩
      cases eq
      exact ⟨_, best, other⟩
    · intro ⟨v, own, other⟩
      exact ⟨v, congrArg some (isExtreme_unique held best own), other⟩
  cases aggregation with
  | isEmpty => exact absurd rfl counted
  | count =>
    refine Iff.trans ?_ (and_iff_left nofun).symm
    show some (some (IsarValue.integer _)) = some (some (.integer _)) ↔ _
    simp only [Option.some.injEq, IsarValue.integer.injEq]
    rfl
  | min =>
    refine Iff.trans ?_ (and_iff_left nofun).symm
    exact extreme_iff true applies
  | max =>
    refine Iff.trans ?_ (and_iff_left nofun).symm
    exact extreme_iff false applies
  | average =>
    refine Iff.trans ?_ (and_iff_left nofun).symm
    unfold Agrees SameAggregate
    simp only [Option.map_some, aggregateResult_average]
    refine exists_congr fun values => and_congr_right fun _ => ?_
    rw [Option.some.injEq]
    exact (Option.map_injective fun _ _ => IsarValue.real.inj).eq_iff
  | sum =>
    obtain ⟨numeric, held⟩ := applies
    have numbers := numeric_of_held numeric held
    by_cases fits : SumFits .sum (columnValues name first)
    rotate_left
    · have error : sumOf numerals (columnValues name first) = none := by
        rcases @sumOf_cases numerals _ numbers with ⟨-, -, error⟩ | ⟨-, inside, -⟩ | ⟨other, -⟩
        · exact error
        · exact absurd (fun _ _ => inside) fits
        · exact absurd (fun _ all => absurd all other) fits
      refine iff_of_false ?_ fun h => fits h.2
      simp only [error, Option.map_none]
      unfold Agrees
      simp only
      split
      · intro ⟨_, _, eq⟩
        cases eq
      · intro ⟨_, eq, _⟩
        cases eq
    · refine Iff.trans ?_ (and_iff_left fits).symm
      unfold Agrees SameAggregate
      by_cases real : IsReal t
      · simp only [if_pos real, aggregateResult_sum_real real numbers fits, Option.some.injEq,
          IsarValue.real.injEq]
      · obtain ⟨v, eq, value⟩ := @aggregateResult_sum_integer casts numerals t numeric real _ held
          fits
        simp only [if_neg real, eq, Option.some.injEq, IsarValue.integer.injEq]
        constructor
        · intro ⟨w, same, sum⟩
          rw [← value, same, sum]
        · intro sum
          exact ⟨v, rfl, value.trans sum⟩

theorem isExtreme_perm {isMin : Bool} {values others : List IsarValue} (perm : values.Perm others)
    {v : Option IsarValue} (h : IsExtreme isMin values v) : IsExtreme isMin others v := by
  cases v with
  | none =>
    rw [show values = [] from h] at perm
    exact List.nil_perm.mp perm
  | some v => exact ⟨perm.mem_iff.mp h.1, fun w mem => h.2 w (perm.mem_iff.mpr mem)⟩

/-- Where infinities cancel out, no order of the rows has the sum zero that is shown. -/
theorem isNumber_of_sameAggregate {aggregation : Aggregation} {t : DataType} {name : String}
    {first returned : TableRows Row} (perm : first.Perm returned)
    (applies : Applies aggregation t (columnValues name first))
    (fits : SumFits aggregation (columnValues name first))
    (same : SameAggregate numerals aggregation t name first returned) :
    IsNumber numerals aggregation t (columnValues name first) := by
  have values : (columnValues name first).Perm (columnValues name returned) := perm.map _
  cases aggregation with
  | sum =>
    intro real
    have numbers := numeric_of_held applies.1 applies.2
    unfold SameAggregate at same
    simp only [if_pos real] at same
    obtain ⟨others, order, eq⟩ := same
    have order' := values.trans order.symm
    by_contra none_
    rw [Bool.not_eq_false] at none_
    rw [shownSum, if_pos none_] at eq
    by_cases finite : AllFinite (columnValues name first)
    · unfold floatSum at none_
      split at none_
      · rename_i all
        rw [isNan_total (fits rfl all)] at none_
        cases none_
      · rw [SumCtx.isNan_realSum numbers finite] at none_
        cases none_
    · have infinite : ¬ AllFinite others := fun finite' =>
        finite fun r mem => finite' r (order'.mem_iff.mp mem)
      have fraction : ¬ AllIntegers others := by
        intro all
        refine infinite fun r mem => ?_
        cases all _ mem (by simp)
      have beyond := @SumCtx.isOverflow_realSum numerals _
        (fun v mem => numbers v (order'.mem_iff.mpr mem)) infinite
      rw [floatSum, if_neg fraction] at eq
      rw [← eq] at beyond
      exact absurd beyond (by decide)
  | average =>
    intro r found
    obtain ⟨others, order, eq⟩ := same
    have numbers := numeric_of_held applies.1 applies.2
    have order' := values.trans order.symm
    -- both lists have as many numbers, so that both have an average
    have counts : (sumCtx numerals others).cnt =
        (sumCtx numerals (columnValues name first)).cnt := by
      rw [(@added_sumCtx numerals _ numbers).count, (@added_sumCtx numerals _
        fun v mem => numbers v (order'.mem_iff.mpr mem)).count]
      exact (order'.filter _).length_eq.symm
    by_contra none_
    rw [Bool.not_eq_false] at none_
    unfold shownAverage at eq
    rw [found, Option.filter_some_neg (by rw [none_]; decide)] at eq
    unfold average SumCtx.quotient at found eq
    rw [counts] at eq
    split at found
    · cases found
    · rename_i some_
      rw [if_neg some_] at eq
      cases eq
  | _ => trivial

/-- The aggregations do not depend on the order of the rows. -/
theorem sameAggregate_of_perm {aggregation : Aggregation} {t : DataType} {name : String}
    {first returned : TableRows Row} (perm : first.Perm returned)
    (applies : Applies aggregation t (columnValues name first))
    (number : IsNumber numerals aggregation t (columnValues name first)) :
    SameAggregate numerals aggregation t name first returned := by
  have values : (columnValues name first).Perm (columnValues name returned) := perm.map _
  have extremes (isMin : Bool) (held : ∀ v ∈ columnValues name first, HeldAs t v) :
      ∃ v, IsExtreme isMin (propertyValues t (columnValues name first)) v ∧
        IsExtreme isMin (propertyValues t (columnValues name returned)) v := by
    have best := (@isExtreme_extreme t isMin _ held).2
    exact ⟨_, best, isExtreme_perm (values.filterMap _) best⟩
  cases aggregation with
  | count => exact congrArg Int64.ofNat perm.length_eq
  | isEmpty => trivial
  | min => exact extremes true applies
  | max => exact extremes false applies
  | sum =>
    unfold SameAggregate
    by_cases real : IsReal t
    · simp only [if_pos real]
      refine ⟨_, values, ?_⟩
      rw [shownSum, number real, if_neg (by decide)]
    · simp only [if_neg real]
      exact total_perm values
  | average =>
    refine ⟨_, values, ?_⟩
    unfold shownAverage
    cases eq : average numerals (columnValues name first) with
    | none => rfl
    | some r => simp [Option.filter, number r eq]

/-! ## Rows of statements -/

theorem returned_eq_nil_iff {platform : Platform} {tail : Tail (Expr QueryParam)}
    {rows returned : TableRows Row} (cursor : CursorReturns platform tail rows returned) :
    returned = [] ↔ keptRows platform tail rows = [] := by
  have answers := cursor.rows
  cases grouped : tail.groupBy.isEmpty with
  | true =>
    rw [grouped, Bool.not_true, if_neg (by decide)] at answers
    constructor
    · intro empty
      rw [empty] at answers
      exact List.nil_perm.mp answers
    · intro empty
      rw [empty] at answers
      exact List.perm_nil.mp answers
  | false =>
    rw [grouped, Bool.not_false, if_pos rfl] at answers
    constructor
    · intro empty
      apply List.eq_nil_iff_forall_not_mem.mpr
      intro r mem
      obtain ⟨r', mem', -⟩ := answers.all r mem
      rw [empty] at mem'
      cases mem'
    · intro empty
      apply List.eq_nil_iff_forall_not_mem.mpr
      intro r mem
      have kept := answers.sub r mem
      rw [empty] at kept
      cases kept

/-- The rows that are aggregated are rows of the table. -/
theorem first_subset {platform : Platform} {tail : Tail (Expr QueryParam)}
    {rows : TableRows Row} {groups : List (TableRows Row)}
    (ranges : RangesOver platform tail rows groups) {row : Int64 × Row}
    (mem : row ∈ groups.head?.getD []) : row ∈ rows := by
  cases groups with
  | nil => cases mem
  | cons first groups =>
    unfold RangesOver Aggregated at ranges
    split at ranges
    · have kept := ranges.perm.mem_iff.mp (List.mem_append_left _ mem)
      exact (List.mem_filter.mp kept).1
    · obtain ⟨all, perm, eq⟩ := ranges
      cases eq
      exact (List.mem_filter.mp (perm.mem_iff.mp mem)).1

theorem applies_subset {aggregation : Aggregation} {t : DataType} {name : String}
    {first rows : TableRows Row} (sub : ∀ row ∈ first, row ∈ rows)
    (applies : Applies aggregation t (columnValues name rows)) :
    Applies aggregation t (columnValues name first) := by
  have held (h : ∀ v ∈ columnValues name rows, HeldAs t v) :
      ∀ v ∈ columnValues name first, HeldAs t v := by
    intro v mem
    obtain ⟨row, memRow, rfl⟩ := List.mem_map.mp mem
    exact h _ (List.mem_map_of_mem (sub row memRow))
  cases aggregation with
  | count => trivial
  | isEmpty => trivial
  | min => exact held applies
  | max => exact held applies
  | sum => exact ⟨applies.1, held applies.2⟩
  | average => exact ⟨applies.1, held applies.2⟩

end

def numberCollection : SQLiteCollection := ⟨"number", some "id", [⟨"value", .long, none⟩]⟩

def numberRow (id v : Int64) : Int64 × Row := (id, fun _ => .integer v)

/-- There are no texts in a table of integers, and nothing is converted. -/
def noNumerals : Numerals := ⟨fun _ => .inl 0, fun _ => ⟨0⟩⟩

def exactCasts : Casts := ⟨fun _ => [], fun _ => 0, fun _ => ⟨0⟩⟩

def barePlatform : Platform := ⟨id, fun _ => [], fun _ => none⟩

/-- The rows whose value is as given once each, or all rows. -/
def numberQuery (distinct : Bool) : SQLiteQueryBuilder :=
  { SQLiteQueryBuilder.new 0 with distinct := if distinct then [("value", false)] else [] }

def numberTail (distinct : Bool) : Tail (Expr QueryParam) :=
  { condition := none, groupBy := if distinct then [⟨"value", false⟩] else [], orderBy := []
    limit := none }

/-- One aggregation of a query agrees with the rows, whatever answer the statements have. -/
def AggregateAgrees (b : SQLiteQueryBuilder) (c : SQLiteCollection) (rows : TableRows Row)
    (aggregation : Aggregation) (propertyIndex : Option UInt16) : Prop :=
  ∀ q tail spread returned selected groups, b.build id [c] = some q →
    readTail (fun _ => none) (q.cursorSql c none none) = some tail →
    readTail (fun _ => none) (q.aggregateSql c aggregation propertyIndex) = some spread →
    CursorReturns barePlatform tail rows returned →
    CursorReturns barePlatform spread rows selected → RangesOver barePlatform spread rows groups →
    Agrees noNumerals aggregation (aggregatedType c propertyIndex)
      (aggregatedName c propertyIndex) returned
      (aggregate exactCasts noNumerals c aggregation propertyIndex groups selected)

theorem numberRow_apart {id id' v v' : Int64} (ne : v ≠ v') :
    ¬ sameGroup rowColumn [⟨"value", false⟩] (numberRow id v) (numberRow id' v') := by
  intro same
  have key := (cmp_eq_eq_iff _ _).mp (same _ (List.mem_singleton_self _))
  have units : v.toInt * 2 ^ 1074 = v'.toInt * 2 ^ 1074 :=
    congrArg (fun k : Nat ×ₗ Int ×ₗ List Char ×ₗ List Nat => k.2.1) key
  exact ne (Int64.toInt_inj.mp (Int.eq_of_mul_eq_mul_right (by positivity) units))

end IsarPlus.Sqlite
