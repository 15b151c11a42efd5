import IsarPlus.Sqlite.Proofs.Conditions
import IsarPlus.Sqlite.Proofs.Groups

/-!
# Conditions on columns

What a condition on a column comes to on the value that is stored there, and when that is what the
condition means.
-/

namespace IsarPlus
open Scalar

/-! ## Comparisons -/

/-- The operand is null or has the type of the value; NaN has no type, and objects are not compared. -/
def Datum.Typed : Datum → Option IsarValue → Prop
  | .object _, _ | .list _, _ => False
  | _, none => True
  | .bool _, some (.bool _) | .integer _, some (.integer _) | .string _, some (.string _) => True
  | .real _, some (.real operand) => operand.isNan = false
  | _, _ => False

/-- The operands that the condition compares with have the type of the value. -/
def OperandsTyped (d : Datum) (condition : FilterCondition) : Prop :=
  (∀ operand, condition.values[0]? = some operand → d.Typed operand) ∧
  (condition.conditionType = .between → ∀ operand, condition.values[1]? = some operand →
    d.Typed operand)

namespace FilterCondition

/-- The condition under an order of the value and the operands. -/
def under (condition : FilterCondition) (order : Option IsarValue → Option Ordering) : Bool :=
  let is (test : Ordering → Bool) (operand : Option (Option IsarValue)) : Bool :=
    operand.any fun operand => (order operand).any test
  match condition.conditionType with
  | .equal => is (· == .eq) condition.values[0]?
  | .greater => is (· == .gt) condition.values[0]?
  | .greaterOrEqual => is (· != .lt) condition.values[0]?
  | .less => is (· == .lt) condition.values[0]?
  | .lessOrEqual => is (· != .gt) condition.values[0]?
  | .between => is (· != .lt) condition.values[0]? && is (· != .gt) condition.values[1]?
  | _ => false

/-- The condition is `Between(lower, null)`, which no value meets. -/
def Unbounded (condition : FilterCondition) (lower : IsarValue) : Prop :=
  condition.conditionType = .between ∧ condition.values[0]? = some (some lower) ∧
    condition.values[1]? = some none

end FilterCondition

theorem satisfies_eq_under {condition : FilterCondition}
    (comparison : condition.conditionType.isComparison = true) (fold : List Char → List Char)
    (d : Datum) :
    d.satisfies fold condition.conditionType condition.values = condition.under (d.compare fold) := by
  unfold Datum.satisfies FilterCondition.under
  cases type : condition.conditionType <;> simp_all [ConditionType.isComparison]

/-- Only strings are folded. -/
theorem compare_congr {d : Datum} (notString : ∀ s, d ≠ .string s)
    (fold fold' : List Char → List Char) : d.compare fold = d.compare fold' := by
  funext operand
  cases d with
  | string s => exact absurd rfl (notString s)
  | _ => rcases operand with _ | operand <;> first | rfl | (cases operand <;> rfl)

theorem compare_of_untyped {d : Datum} (nonnull : d ≠ .null) {operand : Option IsarValue}
    (untyped : ¬ d.Typed operand) (fold : List Char → List Char) : d.compare fold operand = none := by
  cases d with
  | null => contradiction
  | list | object => rfl
  | bool v | integer v | string v =>
    rcases operand with _ | operand
    · exact absurd trivial untyped
    · cases operand <;> first | rfl | exact absurd trivial untyped
  | real v =>
    rcases operand with _ | operand
    · exact absurd trivial untyped
    · cases operand with
      | real w =>
        have nan : w.isNan = true := by simpa [Datum.Typed] using untyped
        simp [Datum.compare, F64.partialCmp, nan]
      | _ => rfl

/-- No value meets a condition on another type. -/
theorem under_of_untyped {d : Datum} (nonnull : d ≠ .null) {condition : FilterCondition}
    (untyped : ¬ OperandsTyped d condition) (fold : List Char → List Char) :
    condition.under (d.compare fold) = false := by
  have unordered (i : Nat) (operand : Option IsarValue) (at' : condition.values[i]? = some operand)
      (untyped : ¬ d.Typed operand) (test : Ordering → Bool) :
      (condition.values[i]?.any fun operand => (d.compare fold operand).any test) = false := by
    rw [at', Option.any_some, compare_of_untyped nonnull untyped, Option.any_none]
  rw [OperandsTyped, not_and_or] at untyped
  unfold FilterCondition.under
  rcases untyped with untyped | untyped
  · simp only [not_forall] at untyped
    obtain ⟨operand, at', untyped⟩ := untyped
    cases condition.conditionType <;>
      simp only [unordered 0 operand at' untyped, Bool.false_and]
  · simp only [not_forall] at untyped
    obtain ⟨between, operand, at', untyped⟩ := untyped
    simp only [between, unordered 1 operand at' untyped, Bool.and_false]

namespace Sqlite
open Sql

variable {platform : Platform} {all : List SQLiteCollection}

/-! ## What SQLite takes a condition for -/

/-- A comparison of the stored value with an operand; one that is unknown counts as false, below an
odd number of negations as true. -/
def passes (negated nocase : Bool) (v : Value) (op : Comparison) (operand : IsarValue) : Bool :=
  ((v.compare nocase (QueryParam.value operand).bound).map op.test).getD negated

/-- What a condition on a column comes to on the value that is stored there. `Less`, `LessOrEqual` and
`Between` up to a bound have `OR column IS NULL` behind the comparison. -/
def columnPart (negated : Bool) (v : Value) (condition : FilterCondition) : Part :=
  let passes := passes negated (!condition.caseSensitive) v
  let isNull := v == .null
  let first : Option (Option IsarValue) := condition.values[0]?
  let second : Option (Option IsarValue) := condition.values[1]?
  match condition.conditionType, first with
  | .isNull, _ => .whole isNull
  | .equal, some (some operand) => .whole (passes .eq operand)
  | .equal, some none => .whole isNull
  | .greater, some (some operand) => .whole (passes .gt operand)
  | .greater, some none => .whole !isNull
  | .greaterOrEqual, some (some operand) => .whole (passes .ge operand)
  | .greaterOrEqual, some none => .whole true
  | .less, some (some operand) => .split (passes .lt operand) isNull
  | .lessOrEqual, some (some operand) => .split (passes .le operand) isNull
  | .lessOrEqual, some none => .whole isNull
  | .between, some lower =>
    match lower, second with
    | some lower, some (some upper) => .whole (passes .ge lower && passes .le upper)
    | some lower, some none => .whole (passes .ge lower)
    | none, some (some upper) => .split (passes .le upper) isNull
    | none, some none => .whole isNull
    | _, none => .whole false
  | _, _ => .whole false

section
variable {row : String → Value} {collection : SQLiteCollection} {condition : FilterCondition}

/-- The translation of a condition on a column. -/
theorem contributes_condition (negated : Bool)
    (inScope : condition.conditionType = .isNull ∨ condition.conditionType.isComparison = true) :
    Contributes (platform.env row) negated
      ((conditionSql collection condition).getD (word (.truth false)))
      (columnPart negated (row (collection.getPropertyName condition.propertyIndex)) condition) := by
  generalize name : collection.getPropertyName condition.propertyIndex = column
  have isNull : Contributes (platform.env row) negated (isNullSql column)
      (.whole (row column == .null)) := .whole (spellsNot_isNull column)
  have truth (b : Bool) : Contributes (platform.env row) negated (word (.truth b)) (.whole b) :=
    .whole (spellsNot_truth b)
  have compare (op : Comparison) (operand : IsarValue) :
      Contributes (platform.env row) negated (compareSql column op (!condition.caseSensitive) operand)
        (.whole (passes negated (!condition.caseSensitive) (row column) op operand)) :=
    .whole (spellsNot_compare op column _ (QueryParam.value operand))
  have orNull (op : Comparison) (operand : IsarValue) :
      Contributes (platform.env row) negated
        (compareOrNullSql column op (!condition.caseSensitive) operand)
        (.split (passes negated (!condition.caseSensitive) (row column) op operand)
          (row column == .null)) :=
    .split (spellsNot_compare op column _ (QueryParam.value operand)) (spellsNot_isNull column)
  unfold conditionSql columnPart
  simp only [name]
  cases type : condition.conditionType with
  | isNull => exact isNull
  | equal =>
    rcases condition.values[0]? with _ | _ | operand
    · exact truth false
    · exact isNull
    · exact compare .eq operand
  | greater =>
    rcases condition.values[0]? with _ | _ | operand
    · exact truth false
    · exact .whole (spellsNot_isNotNull column)
    · exact compare .gt operand
  | greaterOrEqual =>
    rcases condition.values[0]? with _ | _ | operand
    · exact truth false
    · exact truth true
    · exact compare .ge operand
  | less =>
    rcases condition.values[0]? with _ | _ | operand
    · exact truth false
    · exact truth false
    · exact orNull .lt operand
  | lessOrEqual =>
    rcases condition.values[0]? with _ | _ | operand
    · exact truth false
    · exact isNull
    · exact orNull .le operand
  | between =>
    rcases condition.values[0]? with _ | _ | lower
    · exact truth false
    · rcases condition.values[1]? with _ | _ | upper
      · exact truth false
      · exact isNull
      · exact orNull .le upper
    · rcases condition.values[1]? with _ | _ | upper
      · exact truth false
      · exact compare .ge lower
      · exact Translates.contributes (Translates.of_spellsNot
          (spellsNot_between column _ (QueryParam.value lower) (QueryParam.value upper))
          (getD_and3 negated _ _))
  | _ => simp [type, ConditionType.isComparison] at inScope

end

/-! ## Exact conditions on columns -/

/-- The order of `COLLATE NOCASE`; a string is above null. -/
def noCaseOrder (s : List Char) : Option IsarValue → Option Ordering
  | none => some .gt
  | some (.string operand) => some (cmp (noCaseKey s) (noCaseKey operand))
  | some _ => none

/-- The translated condition is `NULL` on null. -/
def unknownOnNull (condition : FilterCondition) : Bool :=
  match condition.conditionType with
  | .equal | .greater | .greaterOrEqual => condition.values[0]?.any Option.isSome
  | .between => condition.values[0]?.any Option.isSome && condition.values[1]?.isSome
  | _ => false

/-- A comparison whose translation is exact on the value `d` of a column that stores it as `v`, below
an odd number of negations if `negated`. -/
structure ColumnExact (toLowercase : List Char → List Char) (negated : Bool) (v : Value) (d : Datum)
    (condition : FilterCondition) : Prop where
  /-- Null meets no comparison that is unknown, and fails none below a negation. -/
  known : d = .null → negated = true → unknownOnNull condition = false
  /-- `Between(lower, null)` is translated to its lower bound, which must not be reached. -/
  bounded : d ≠ .null → OperandsTyped d condition → ∀ lower, condition.Unbounded lower →
    v.compare (!condition.caseSensitive) (QueryParam.value lower).bound = some .lt
  /-- `COLLATE NOCASE` answers as the order of the lowercased strings does. -/
  folded : ∀ s, d = .string s → OperandsTyped d condition → condition.caseSensitive = false →
    (∀ lower, ¬ condition.Unbounded lower) →
    condition.under (noCaseOrder s) = condition.under (d.compare toLowercase)
  /-- No value meets a condition on another type; SQLite has to refuse it, too. -/
  refused : d ≠ .null → ¬ OperandsTyped d condition → (columnPart negated v condition).value = false

/-- On null. -/
theorem columnPart_null {condition : FilterCondition}
    (comparison : condition.conditionType.isComparison = true) (negated : Bool)
    (fold : List Char → List Char) :
    (columnPart negated .null condition).value = condition.under (Datum.null.compare fold) ↔
      (negated = true → unknownOnNull condition = false) := by
  have unknown (op : Comparison) (nocase : Bool) (operand : IsarValue) :
      passes negated nocase .null op operand = negated := rfl
  unfold columnPart FilterCondition.under unknownOnNull
  cases type : condition.conditionType with
  | between =>
    rcases condition.values[0]? with _ | _ | lower <;>
      rcases condition.values[1]? with _ | _ | upper <;>
        simp [unknown, Part.value, Datum.compare]
  | equal | greater | greaterOrEqual | less | lessOrEqual =>
    rcases condition.values[0]? with _ | _ | operand <;>
      simp [unknown, Part.value, Datum.compare]
  | _ => simp [type, ConditionType.isComparison] at comparison

/-- The order in which SQLite finds a value that is not null and the operands of its type. -/
def storedOrder (nocase : Bool) : Datum → Option IsarValue → Option Ordering
  | .string s => if nocase then noCaseOrder s else (Datum.string s).compare id
  | d => d.compare id

/-- Values other than strings are ordered as they should be. -/
theorem storedOrder_eq {d : Datum} (notString : ∀ s, d ≠ .string s) (nocase : Bool)
    (fold : List Char → List Char) : storedOrder nocase d = d.compare fold := by
  have same : storedOrder nocase d = d.compare id := by
    cases d with
    | string s => exact absurd rfl (notString s)
    | _ => rfl
  rw [same, compare_congr notString]

theorem storedOrder_none {d : Datum} (nonnull : d ≠ .null) (typed : d.Typed none) (nocase : Bool) :
    storedOrder nocase d none = some .gt := by
  cases d with
  | null => contradiction
  | list | object => cases typed
  | string => cases nocase <;> rfl
  | _ => rfl

theorem untyped_of_json {p : SQLiteProperty} {d : Datum} {j : Json} (h : JsonHolds all p d j)
    (type : p.dataType.isList = true ∨ p.dataType = .object) (operand : Option IsarValue) :
    ¬ d.Typed operand := by
  cases h with
  | null notList notObject => simp_all
  | bool type' => simp [type', DataType.isList, DataType.elementType] at type
  | integer type' =>
    rcases type' with type' | type' | type' <;>
      simp [type', DataType.isList, DataType.elementType] at type
  | real type' | string type' =>
    rcases type' with type' | type' <;> simp [type', DataType.isList, DataType.elementType] at type
  | _ => exact id

theorem storedOrder_some {p : SQLiteProperty} {d : Datum} {v : Value}
    (h : ColumnHolds platform all p d v) (nonnull : d ≠ .null) {operand : IsarValue}
    (typed : d.Typed (some operand)) (nocase : Bool) :
    ∃ o, v.compare nocase (QueryParam.value operand).bound = some o ∧
      storedOrder nocase d (some operand) = some o := by
  cases h with
  | null => contradiction
  | @bool v =>
    cases operand <;> simp [Datum.Typed] at typed
    rename_i w
    cases v <;> cases w <;> exact ⟨_, rfl, rfl⟩
  | integer => cases operand <;> first | exact ⟨_, rfl, rfl⟩ | cases typed
  | real _ notNan =>
    cases operand <;> simp [Datum.Typed] at typed
    rename_i w
    simp [storedOrder, QueryParam.bound, notNan, typed, Datum.compare, F64.partialCmp, Value.compare]
  | string =>
    cases operand <;> simp [Datum.Typed] at typed
    cases nocase <;> exact ⟨_, rfl, rfl⟩
  | nullList | nullObject | byteList => cases typed
  | json _ type holds => exact absurd typed (untyped_of_json holds type _)

theorem ne_null_of_typed {p : SQLiteProperty} {d : Datum} {v : Value}
    (h : ColumnHolds platform all p d v) (nonnull : d ≠ .null) {operand : Option IsarValue}
    (typed : d.Typed operand) : (v == .null) = false := by
  rw [h.isNull]
  cases d with
  | null => contradiction
  | list | object => cases typed
  | _ => rfl

/-- On a value that is not null, with operands of its type. -/
theorem columnPart_typed {p : SQLiteProperty} {d : Datum} {v : Value}
    (h : ColumnHolds platform all p d v) (nonnull : d ≠ .null) {condition : FilterCondition}
    (comparison : condition.conditionType.isComparison = true) (typed : OperandsTyped d condition)
    (bounded : ∀ lower, ¬ condition.Unbounded lower) (negated : Bool) :
    (columnPart negated v condition).value =
      condition.under (storedOrder (!condition.caseSensitive) d) := by
  have passed (op : Comparison) (operand : IsarValue) (typed : d.Typed (some operand)) :
      passes negated (!condition.caseSensitive) v op operand =
        (storedOrder (!condition.caseSensitive) d (some operand)).any op.test := by
    obtain ⟨o, compared, ordered⟩ := storedOrder_some h nonnull typed (!condition.caseSensitive)
    rw [passes, compared, ordered]
    rfl
  have filled (operand : Option IsarValue) (typed : d.Typed operand) : (v == .null) = false :=
    ne_null_of_typed h nonnull typed
  have above (typed : d.Typed none) := storedOrder_none nonnull typed (!condition.caseSensitive)
  have tests : Comparison.eq.test = (· == .eq) ∧ Comparison.gt.test = (· == .gt) ∧
      Comparison.ge.test = (· != .lt) ∧ Comparison.lt.test = (· == .lt) ∧
      Comparison.le.test = (· != .gt) := ⟨rfl, rfl, rfl, rfl, rfl⟩
  unfold columnPart FilterCondition.under
  obtain ⟨typed, typed'⟩ := typed
  cases type : condition.conditionType with
  | between =>
    replace typed' := typed' type
    cases first : condition.values[0]? with
    | none => rfl
    | some lower =>
      replace typed := typed lower first
      cases second : condition.values[1]? with
      | none => cases lower <;> simp [Part.value]
      | some upper =>
        replace typed' := typed' upper second
        rcases lower with _ | lower <;> rcases upper with _ | upper
        · simp [Part.value, filled none typed, above typed]
        · have reached : (Ordering.gt != .lt) = true := rfl
          simp [Part.value, filled none typed, above typed, passed .le upper typed', tests, reached]
        · exact absurd ⟨type, first, second⟩ (bounded lower)
        · simp [Part.value, passed .ge lower typed, passed .le upper typed', tests]
  | equal | greater | greaterOrEqual | less | lessOrEqual =>
    cases first : condition.values[0]? with
    | none => rfl
    | some operand =>
      replace typed := typed operand first
      rcases operand with _ | operand
      · simp [Part.value, filled none typed, above typed]
      · simp [Part.value, filled (some operand) typed, passed _ operand typed, tests]
  | _ => simp [type, ConditionType.isComparison] at comparison

/-- Exactness is what the translation of a condition on a column needs. -/
theorem columnExact_iff {p : SQLiteProperty} {d : Datum} {v : Value}
    (h : ColumnHolds platform all p d v) {condition : FilterCondition}
    (comparison : condition.conditionType.isComparison = true) (negated : Bool)
    (toLowercase : List Char → List Char) :
    (columnPart negated v condition).value =
        d.satisfies (folding toLowercase condition.caseSensitive) condition.conditionType
          condition.values ↔
      ColumnExact toLowercase negated v d condition := by
  rw [satisfies_eq_under comparison]
  by_cases null : d = .null
  · subst null
    have stored : v = .null := beq_iff_eq.mp (h.isNull.trans rfl)
    rw [stored, columnPart_null comparison]
    exact ⟨fun known => ⟨fun _ => known, absurd rfl, nofun, absurd rfl⟩, fun exact => exact.known rfl⟩
  by_cases typed : OperandsTyped d condition
  swap
  · rw [under_of_untyped null typed]
    exact ⟨fun refused => ⟨(absurd · null), fun _ => (absurd · typed), fun _ _ => (absurd · typed),
      fun _ _ => refused⟩, fun exact => exact.refused null typed⟩
  by_cases unbounded : ∃ lower, condition.Unbounded lower
  · obtain ⟨lower, type, first, second⟩ := unbounded
    obtain ⟨o, compared, -⟩ := storedOrder_some h null (typed.1 _ first) (!condition.caseSensitive)
    have above : d.compare (folding toLowercase condition.caseSensitive) none = some .gt := by
      have typed := typed.2 type _ second
      cases d <;> first | rfl | contradiction
    have fails : condition.under (d.compare (folding toLowercase condition.caseSensitive)) =
        false := by
      simp [FilterCondition.under, type, first, second, above]
    have lowerBound : (columnPart negated v condition).value = Comparison.ge.test o := by
      simp [columnPart, type, first, second, passes, compared, Part.value]
    have only (lower' : IsarValue) (h : condition.Unbounded lower') : lower' = lower :=
      Option.some.inj (Option.some.inj (h.2.1.symm.trans first))
    rw [fails, lowerBound]
    constructor
    · intro below
      refine ⟨(absurd · null), fun _ _ lower' h => ?_, fun _ _ _ _ h => ?_, fun _ => (absurd typed ·)⟩
      · rw [only lower' h, compared]
        cases o <;> simp [Comparison.test] at below ⊢
      · exact absurd ⟨type, first, second⟩ (h lower)
    · intro exact
      have below := exact.bounded null typed lower ⟨type, first, second⟩
      rw [compared] at below
      cases below
      rfl
  · have bounded := not_exists.mp unbounded
    rw [columnPart_typed h null comparison typed bounded]
    constructor
    · intro same
      refine ⟨(absurd · null), fun _ _ lower unbounded => absurd unbounded (bounded lower), ?_,
        fun _ => (absurd typed ·)⟩
      rintro s rfl - insensitive -
      rw [insensitive] at same
      exact same
    · intro exact
      by_cases string : ∃ s, d = .string s
      · obtain ⟨s, rfl⟩ := string
        cases sensitive : condition.caseSensitive with
        | true => rfl
        | false => exact exact.folded s rfl typed sensitive bounded
      · rw [storedOrder_eq (not_exists.mp string)]

end Sqlite

end IsarPlus
