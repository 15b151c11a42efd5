import IsarPlus.Core.Comparison
import IsarPlus.Core.FilterSemantics
import IsarPlus.Sqlite.Sql
import Mathlib

/-!
# Stored values

How the rows and JSON columns of a table hold the values of an object, and what a condition means on
the JSON value of a property.
-/

namespace IsarPlus.Sqlite
open Scalar Sql

/-! ## Stored values -/

/-- The types whose values a condition compares. -/
def IsScalar : DataType → Prop
  | .bool | .byte | .int | .float | .long | .double | .string => True
  | _ => False

/-- The operand is null or a value of the type; NaN is no value. -/
def Typed (t : DataType) : Option IsarValue → Prop
  | none => True
  | some (.bool _) => t = .bool
  | some (.integer _) => t = .byte ∨ t = .int ∨ t = .long
  | some (.real v) => (t = .float ∨ t = .double) ∧ v.isNan = false
  | some (.string _) => t = .string

/-- The JSON value that the writer stores for the value of a property inside a JSON column; what is
null inside an object is left out of it. A byte list is a string if it is written at once, and an
array if its elements are written. -/
inductive JsonHolds (all : List SQLiteCollection) : SQLiteProperty → Datum → Json → Prop
  | null {p : SQLiteProperty} : p.dataType.isList = false → p.dataType ≠ .object →
      JsonHolds all p .null .null
  | bool {p : SQLiteProperty} {v : Bool} : p.dataType = .bool → JsonHolds all p (.bool v) (.bool v)
  | integer {p : SQLiteProperty} {v : Int64} :
      p.dataType = .byte ∨ p.dataType = .int ∨ p.dataType = .long →
      JsonHolds all p (.integer v) (.number (.integer v.toInt))
  | real {p : SQLiteProperty} {v : F64} : p.dataType = .float ∨ p.dataType = .double →
      v.isNan = false → JsonHolds all p (.real v) (.number (.real v))
  | string {p : SQLiteProperty} {v : List Char} : p.dataType = .string ∨ p.dataType = .json →
      JsonHolds all p (.string v) (.string v)
  | nullList {p : SQLiteProperty} : p.dataType.isList = true → JsonHolds all p (.list none) .null
  | byteList {p : SQLiteProperty} {elements : List Datum} {base64 : List Char} :
      p.dataType = .byteList → JsonHolds all p (.list (some elements)) (.string base64)
  | list {p : SQLiteProperty} {t : DataType} {elements : List Datum} {values : List Json} :
      p.dataType.elementType = some t → values.length = elements.length →
      (∀ (i : Nat) d j, elements[i]? = some d → values[i]? = some j →
        JsonHolds all { p with dataType := t } d j) →
      JsonHolds all p (.list (some elements)) (.array values)
  | nullObject {p : SQLiteProperty} : p.dataType = .object → JsonHolds all p (.object none) .null
  | object {p : SQLiteProperty} {index : UInt16} {c : SQLiteCollection} {fields : List Datum}
      {map : List (String × Json)} :
      p.dataType = .object → p.collectionIndex = some index → all[index.toNat]? = some c →
      fields.length = c.properties.length →
      (∀ (i : Nat) q d, c.properties[i]? = some q → fields[i]? = some d →
        JsonHolds all q d ((map.lookup q.name).getD .null)) →
      JsonHolds all p (.object (some fields)) (.object map)

/-- The value that a row holds in the column of a property. -/
inductive ColumnHolds (platform : Platform) (all : List SQLiteCollection) :
    SQLiteProperty → Datum → Value → Prop
  | null {p : SQLiteProperty} : p.dataType.isList = false → p.dataType ≠ .object →
      ColumnHolds platform all p .null .null
  | bool {p : SQLiteProperty} {v : Bool} : p.dataType = .bool →
      ColumnHolds platform all p (.bool v) (.integer (if v then 1 else 0))
  | integer {p : SQLiteProperty} {v : Int64} :
      p.dataType = .byte ∨ p.dataType = .int ∨ p.dataType = .long →
      ColumnHolds platform all p (.integer v) (.integer v)
  | real {p : SQLiteProperty} {v : F64} : p.dataType = .float ∨ p.dataType = .double →
      v.isNan = false → ColumnHolds platform all p (.real v) (.real v)
  | string {p : SQLiteProperty} {v : List Char} : p.dataType = .string ∨ p.dataType = .json →
      ColumnHolds platform all p (.string v) (.text v)
  | nullList {p : SQLiteProperty} : p.dataType.isList = true →
      ColumnHolds platform all p (.list none) .null
  | nullObject {p : SQLiteProperty} : p.dataType = .object →
      ColumnHolds platform all p (.object none) .null
  | byteList {p : SQLiteProperty} {elements : List Datum} {bytes : List UInt8} :
      p.dataType = .byteList → ColumnHolds platform all p (.list (some elements)) (.blob bytes)
  | json {p : SQLiteProperty} {d : Datum} {json : Json} {s : List Char} :
      d.isNull = false → p.dataType.isList = true ∨ p.dataType = .object →
      JsonHolds all p d json → platform.fromStr s = some json →
      ColumnHolds platform all p d (.text s)

/-- What SQLite and `serde_json` do with the texts that rows hold. -/
structure Platform.Laws (platform : Platform) : Prop where
  text_text : ∀ s, platform.valueText (.text s) = s
  text_null : platform.valueText .null = []
  fromStr_nil : platform.fromStr [] = none

/-! ## Conditions on JSON values -/

variable {platform : Platform} {all : List SQLiteCollection}

/-- What is done to strings before they are compared. -/
def folding (toLowercase : List Char → List Char) (caseSensitive : Bool) :
    List Char → List Char := if caseSensitive then id else toLowercase

/-- An operand as `JsonCondition::new` prepares it. -/
def lowered (toLowercase : List Char → List Char) (caseSensitive : Bool) : IsarValue → IsarValue
  | .string s => .string (folding toLowercase caseSensitive s)
  | v => v

theorem values_new (toLowercase : List Char → List Char) (path : List String) (t : ConditionType)
    (isList : Bool) (values : List (Option IsarValue)) (caseSensitive : Bool) :
    (JsonCondition.new toLowercase path t isList values caseSensitive).values =
      values.map (Option.map (lowered toLowercase caseSensitive)) := by
  cases caseSensitive with
  | true =>
    have same : lowered toLowercase true = id := by
      funext v
      cases v <;> rfl
    simp [JsonCondition.new, same]
  | false =>
    simp only [JsonCondition.new, Bool.false_eq_true, if_false]
    congr 1

/-- A value of a scalar type is null in JSON when it is null, and compares there as it should. -/
theorem JsonHolds.compare {p : SQLiteProperty} {d : Datum} {j : Json} (h : JsonHolds all p d j)
    (scalar : IsScalar p.dataType) (toLowercase : List Char → List Char) (caseSensitive : Bool) :
    (d = .null ∧ j = .null) ∨ (d.isNull = false ∧ j.isNull = false ∧
      (∀ fold, d.compare fold none = some .gt) ∧
      ∀ operand, Typed p.dataType (some operand) →
        compareJson toLowercase caseSensitive j (lowered toLowercase caseSensitive operand) =
          d.compare (folding toLowercase caseSensitive) (some operand)) := by
  cases h with
  | null => exact Or.inl ⟨rfl, rfl⟩
  | bool type =>
    refine Or.inr ⟨rfl, rfl, fun _ => rfl, fun operand typed => ?_⟩
    cases operand <;> simp_all [Typed, lowered, compareJson, Datum.compare]
  | @integer _ v type =>
    refine Or.inr ⟨rfl, rfl, fun _ => rfl, fun operand typed => ?_⟩
    have range : -2 ^ 63 ≤ v.toInt ∧ v.toInt < 2 ^ 63 := ⟨v.le_toInt, v.toInt_lt⟩
    cases operand with
    | integer n =>
      simp only [lowered, compareJson, Datum.compare, JsonNumber.asI64, if_pos range, compareI64]
    | _ => rcases type with h | h | h <;> simp [Typed, h] at typed
  | real type _ =>
    refine Or.inr ⟨rfl, rfl, fun _ => rfl, fun operand typed => ?_⟩
    cases operand with
    | real x => rfl
    | _ => rcases type with h | h <;> simp [Typed, h] at typed
  | @string _ s type =>
    refine Or.inr ⟨rfl, rfl, fun _ => rfl, fun operand typed => ?_⟩
    cases operand with
    | string w => cases caseSensitive <;> rfl
    | _ => rcases type with h | h <;> simp [Typed, h] at typed
  | nullList type | byteList type | list type | nullObject type | object type =>
    cases h : p.dataType <;> simp_all [IsScalar, DataType.isList, DataType.elementType]

theorem sameType_of_typed {t : DataType} {v w : IsarValue} (hv : Typed t (some v))
    (hw : Typed t (some w)) : v.sameType w = true := by
  cases v <;> cases w <;> simp_all [Typed, IsarValue.sameType] <;> cases t <;> simp_all

section
variable {p : SQLiteProperty} {d : Datum} {j : Json} {toLowercase : List Char → List Char}
  {caseSensitive : Bool}

/-- The five comparisons of a JSON value with an operand. -/
theorem JsonHolds.comparisons (h : JsonHolds all p d j) (scalar : IsScalar p.dataType)
    {operand : Option IsarValue} (typed : Typed p.dataType operand) :
    let prepared := operand.map (lowered toLowercase caseSensitive)
    let order := d.compare (folding toLowercase caseSensitive) operand
    jsonEqual toLowercase caseSensitive j prepared = order.any (· == .eq) ∧
    jsonGreater toLowercase caseSensitive j prepared = order.any (· == .gt) ∧
    jsonGreaterOrEqual toLowercase caseSensitive j prepared = order.any (· != .lt) ∧
    jsonLess toLowercase caseSensitive j prepared = order.any (· == .lt) ∧
    jsonLessOrEqual toLowercase caseSensitive j prepared = order.any (· != .gt) := by
  rcases h.compare scalar toLowercase caseSensitive with ⟨rfl, rfl⟩ | ⟨-, nonnull, above, compares⟩
  · rcases operand with _ | operand
    · simp [jsonEqual, jsonGreater, jsonGreaterOrEqual, jsonLess, jsonLessOrEqual, Json.isNull,
        Datum.compare]
    · simp [jsonEqual, jsonGreater, jsonGreaterOrEqual, jsonLess, jsonLessOrEqual, Json.isNull,
        Datum.compare, compareJson]
  · rcases operand with _ | operand
    · simp [jsonEqual, jsonGreater, jsonGreaterOrEqual, jsonLess, jsonLessOrEqual, nonnull, above]
    · simp [jsonEqual, jsonGreater, jsonGreaterOrEqual, jsonLess, jsonLessOrEqual, nonnull,
        compares operand typed]

theorem JsonHolds.between (h : JsonHolds all p d j) (scalar : IsScalar p.dataType)
    {lower upper : Option IsarValue} (typed : Typed p.dataType lower)
    (typed' : Typed p.dataType upper) :
    jsonBetween toLowercase caseSensitive j (lower.map (lowered toLowercase caseSensitive))
        (upper.map (lowered toLowercase caseSensitive)) =
      ((d.compare (folding toLowercase caseSensitive) lower).any (· != .lt) &&
        (d.compare (folding toLowercase caseSensitive) upper).any (· != .gt)) := by
  have ends : (d.compare (folding toLowercase caseSensitive) none).any (· != .lt) = true ∧
      ((d.compare (folding toLowercase caseSensitive) none).any (· != .gt) = true → d = .null) := by
    rcases h.compare scalar toLowercase caseSensitive with ⟨rfl, -⟩ | ⟨-, -, above, -⟩
    · simp [Datum.compare]
    · simp [above]
  rcases lower with _ | lower
  · rw [Option.map_none, jsonBetween, (h.comparisons scalar typed').2.2.2.2, ends.1, Bool.true_and]
  rcases upper with _ | upper
  · rw [Option.map_none, Option.map_some, jsonBetween, eq_comm, Bool.and_eq_false_iff,
      or_iff_not_imp_right, Bool.not_eq_false]
    intro null
    rw [ends.2 null]
    rfl
  · rcases h.compare scalar toLowercase caseSensitive with ⟨rfl, rfl⟩ | ⟨-, -, -, compares⟩
    · simp [jsonBetween, compareJson, Datum.compare]
    · have same : (lowered toLowercase caseSensitive lower).sameType
          (lowered toLowercase caseSensitive upper) = true := by
        have := sameType_of_typed typed typed'
        cases lower <;> cases upper <;> simp_all [IsarValue.sameType, lowered]
      simp [jsonBetween, same, compares lower typed, compares upper typed']

/-- A condition on a single JSON value. -/
theorem JsonHolds.test (h : JsonHolds all p d j) (scalar : IsScalar p.dataType) {t : ConditionType}
    (comparison : t = .isNull ∨ t.isComparison = true) {values : List (Option IsarValue)}
    (typed : ∀ v ∈ values, Typed p.dataType v) (path : List String) (isList : Bool) :
    (((JsonCondition.new toLowercase path t isList values caseSensitive).test toLowercase).map
        fun test => test j).getD false =
      d.satisfies (folding toLowercase caseSensitive) t values := by
  have operand (i : Nat) : (JsonCondition.new toLowercase path t isList values
      caseSensitive).values[i]? = values[i]?.map (Option.map (lowered toLowercase caseSensitive)) := by
    rw [values_new, List.getElem?_map]
  have get (i : Nat) (v : Option IsarValue) (at' : values[i]? = some v) : Typed p.dataType v :=
    typed v (List.mem_of_getElem? at')
  have sensitive : (JsonCondition.new toLowercase path t isList values caseSensitive).caseSensitive =
    caseSensitive := rfl
  have type : (JsonCondition.new toLowercase path t isList values caseSensitive).conditionType =
    t := rfl
  have null : j.isNull = d.isNull := by
    rcases h.compare scalar toLowercase caseSensitive with ⟨rfl, rfl⟩ | ⟨isNull, isNull', -, -⟩
    · rfl
    · rw [isNull, isNull']
  unfold JsonCondition.test Datum.satisfies
  simp only [operand, sensitive, type]
  cases first : values[0]? with
  | none =>
    cases t with
    | isNull => simpa using null
    | stringStartsWith | stringEndsWith | stringContains | stringMatches =>
      simp [ConditionType.isComparison] at comparison
    | _ => rfl
  | some v =>
    obtain ⟨eq, gt, ge, lt, le⟩ := @JsonHolds.comparisons _ _ _ _ toLowercase caseSensitive h scalar
      v (get 0 v first)
    cases t with
    | isNull => simpa using null
    | equal => simpa using eq
    | greater => simpa using gt
    | greaterOrEqual => simpa using ge
    | less => simpa using lt
    | lessOrEqual => simpa using le
    | between =>
      cases second : values[1]? with
      | none => simp
      | some w => simpa using h.between scalar (get 0 v first) (get 1 w second)
    | _ => simp [ConditionType.isComparison] at comparison

theorem JsonHolds.isNull (h : JsonHolds all p d j) : j.isNull = d.isNull := by
  cases h <;> rfl

end

/-- A condition that compares with operands of a scalar type, that of the elements for a list. -/
structure Comparable (t : DataType) (condition : FilterCondition) : Prop where
  comparison : condition.conditionType.isComparison = true
  scalar : IsScalar (t.elementType.getD t)
  typed : ∀ v ∈ condition.values, Typed (t.elementType.getD t) v

theorem any_eq_any {α β : Type} {xs : List α} {ys : List β} {f : α → Bool} {g : β → Bool}
    (length : xs.length = ys.length)
    (same : ∀ (i : Nat) x y, xs[i]? = some x → ys[i]? = some y → f x = g y) :
    xs.any f = ys.any g := by
  induction xs generalizing ys with
  | nil =>
    cases ys with
    | nil => rfl
    | cons y ys => simp at length
  | cons x xs ih =>
    cases ys with
    | nil => simp at length
    | cons y ys =>
      have head := same 0 x y rfl rfl
      have tail := ih (by simpa using length) fun i => same (i + 1)
      simp [head, tail]

theorem matchesValue_array {c : JsonCondition} (isList : c.isList = true)
    (notNull : c.conditionType ≠ .isNull) (toLowercase : List Char → List Char)
    (values : List Json) :
    (c.matchesValue toLowercase (.array values)).getD false =
      values.any fun value => ((c.test toLowercase).map fun test => test value).getD false := by
  cases test : c.test toLowercase <;> simp [JsonCondition.matchesValue, isList, notNull, test]

theorem matchesValue_null {c : JsonCondition} (isList : c.isList = true)
    (notNull : c.conditionType ≠ .isNull) (toLowercase : List Char → List Char) :
    (c.matchesValue toLowercase .null).getD false = false := by
  cases test : c.test toLowercase <;> simp [JsonCondition.matchesValue, isList, notNull, test]

/-- A translated condition on the JSON value of a property is met just when the condition is, except
for a byte list in a string. -/
theorem JsonHolds.matchesValue_of_notString {p : SQLiteProperty} {d : Datum} {j : Json}
    (h : JsonHolds all p d j) {condition : FilterCondition}
    (exact : condition.conditionType = .isNull ∨ Comparable p.dataType condition ∧
      (p.dataType = .byteList → ∀ s, j ≠ .string s))
    (toLowercase : List Char → List Char) (path : List String) :
    ((JsonCondition.new toLowercase path condition.conditionType p.dataType.isList condition.values
        condition.caseSensitive).matchesValue toLowercase j).getD false =
      d.meets toLowercase condition := by
  by_cases null : condition.conditionType = .isNull
  · have test : ∀ isList, (JsonCondition.new toLowercase path .isNull isList condition.values
        condition.caseSensitive).matchesValue toLowercase j = some j.isNull := by
      intro isList
      simp [JsonCondition.matchesValue, JsonCondition.test, JsonCondition.new]
    rw [null, test, Option.getD_some, h.isNull]
    cases d with
    | list elements => cases elements <;> simp [Datum.meets, null, Datum.isNull]
    | _ => simp [Datum.meets, null, Datum.satisfies]
  obtain ⟨⟨comparison, scalar, typed⟩, notBytes⟩ := exact.resolve_left null
  cases element : p.dataType.elementType with
  | none =>
    rw [element, Option.getD_none] at scalar typed
    have notList : p.dataType.isList = false := by simp [DataType.isList, element]
    have tested := @JsonHolds.test _ _ _ _ toLowercase condition.caseSensitive h scalar _
      (Or.inr comparison) _ typed path false
    have meets : d.meets toLowercase condition = d.satisfies (folding toLowercase
        condition.caseSensitive) condition.conditionType condition.values := by
      cases d with
      | list elements => cases h <;> simp_all [DataType.elementType]
      | _ => rfl
    rw [notList, meets, ← tested]
    simp [JsonCondition.matchesValue, JsonCondition.new, Option.map]
  | some t =>
    have isList : p.dataType.isList = true := by simp [DataType.isList, element]
    rw [element, Option.getD_some] at scalar typed
    have prepared : (JsonCondition.new toLowercase path condition.conditionType true
        condition.values condition.caseSensitive).conditionType ≠ .isNull := null
    rw [isList]
    cases h with
    | nullList =>
      rw [matchesValue_null rfl prepared]
      simp [Datum.meets, null]
    | byteList bytes => exact absurd rfl (notBytes bytes _)
    | @list _ t' elements values element' length each =>
      obtain rfl : t' = t := Option.some.inj (element'.symm.trans element)
      have meets : (Datum.list (some elements)).meets toLowercase condition =
          elements.any (Datum.satisfies (folding toLowercase condition.caseSensitive)
            condition.conditionType condition.values) := by
        simp only [Datum.meets, if_neg null, Option.any_some]
        rfl
      rw [matchesValue_array rfl prepared, meets]
      refine any_eq_any length fun i j d hj hd => ?_
      exact (each i d j hd hj).test scalar (Or.inr comparison) typed path true
    | null notList => simp [isList] at notList
    | bool type | nullObject type | object type => simp [type, DataType.elementType] at element
    | integer type =>
      rcases type with type | type | type <;> simp [type, DataType.elementType] at element
    | real type | string type =>
      rcases type with type | type <;> simp [type, DataType.elementType] at element

/-! ## Columns -/

/-- The JSON value that `isar_filter_json` finds in a column. -/
def Platform.columnJson (platform : Platform) (v : Value) : Json :=
  (platform.fromStr (platform.valueText v)).getD .null

theorem ColumnHolds.columnJson {p : SQLiteProperty} {d : Datum} {v : Value}
    (h : ColumnHolds platform all p d v) (laws : platform.Laws)
    (stored : p.dataType.isList = true ∨ p.dataType = .object)
    (notBytes : p.dataType = .byteList → d.isNull = true) :
    JsonHolds all p d (platform.columnJson v) := by
  have null : platform.columnJson .null = .null := by
    simp [Platform.columnJson, laws.text_null, laws.fromStr_nil]
  cases h with
  | null notList notObject => simp_all
  | nullList isList =>
    rw [null]
    exact .nullList isList
  | nullObject isObject =>
    rw [null]
    exact .nullObject isObject
  | byteList bytes => cases notBytes bytes
  | json _ _ holds parsed =>
    simp only [Platform.columnJson, laws.text_text, parsed, Option.getD_some]
    exact holds
  | bool type => simp [type, DataType.isList, DataType.elementType] at stored
  | integer type =>
    rcases type with type | type | type <;>
      simp [type, DataType.isList, DataType.elementType] at stored
  | real type | string type =>
    rcases type with type | type <;> simp [type, DataType.isList, DataType.elementType] at stored

theorem ColumnHolds.isNull {p : SQLiteProperty} {d : Datum} {v : Value}
    (h : ColumnHolds platform all p d v) : (v == .null) = d.isNull := by
  cases h with
  | json nonnull => rw [nonnull]; rfl
  | _ => rfl

/-- A condition on a column that holds no list is one on a single value. -/
theorem ColumnHolds.meets {p : SQLiteProperty} {d : Datum} {v : Value}
    (h : ColumnHolds platform all p d v) (notList : p.dataType.isList = false)
    (toLowercase : List Char → List Char) (condition : FilterCondition) :
    d.meets toLowercase condition = d.satisfies (folding toLowercase condition.caseSensitive)
      condition.conditionType condition.values := by
  cases d with
  | list elements =>
    cases h with
    | nullList type => simp [type] at notList
    | byteList type => simp [type, DataType.isList, DataType.elementType] at notList
    | json _ type holds =>
      cases holds with
      | nullList type => simp [type] at notList
      | byteList type => simp [type, DataType.isList, DataType.elementType] at notList
      | list type => simp [DataType.isList, type] at notList
  | _ => rfl

end IsarPlus.Sqlite
