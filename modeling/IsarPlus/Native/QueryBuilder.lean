import IsarPlus.Core.Comparison
import IsarPlus.Native.Filter

/-!
# Compiling filters

`isar_core/src/native/native_query_builder.rs`. A condition that cannot be compiled (`None` in
the source: an operand of the wrong type or out of range, a strict bound at the end of the range)
becomes the constant false.
-/

namespace IsarPlus.Native
open ByteBuffer Scalar

/-- An operand read as a value of the property's type; null is the type's own null. -/
def operand {α : Type} (read : IsarValue → Option α) (null : α) : Option IsarValue → Option α
  | some value => read value
  | none => some null

/-- An operand as an inclusive bound: `step` moves it by one where the bound is strict. -/
def bound {α : Type} (read : IsarValue → Option α) (step : α → Option α) (null : α)
    (value : Option IsarValue) (inclusive : Bool) : Option α :=
  (operand read null value).bind fun a => if inclusive then some a else step a

/-- Both bounds of a condition; what fails in either makes the condition fail. -/
def bounds {α : Type} (read : IsarValue → Option α) (stepLower stepUpper : α → Option α)
    (nullLower nullUpper : α) (lower : Option IsarValue) (includeLower : Bool)
    (upper : Option IsarValue) (includeUpper : Bool) : Option (α × α) := do
  let lower ← bound read stepLower nullLower lower includeLower
  let upper ← bound read stepUpper nullUpper upper includeUpper
  pure (lower, upper)

theorem bounds_eq_some {α : Type} {read : IsarValue → Option α} {stepLower stepUpper : α → Option α}
    {nullLower nullUpper : α} {lower : Option IsarValue} {includeLower : Bool}
    {upper : Option IsarValue} {includeUpper : Bool} {L U : α} :
    bounds read stepLower stepUpper nullLower nullUpper lower includeLower upper includeUpper =
        some (L, U) ↔
      bound read stepLower nullLower lower includeLower = some L ∧
        bound read stepUpper nullUpper upper includeUpper = some U := by
  simp [bounds, Option.bind_eq_some_iff]

/-- The strict lower bound of a bool property (`native_query_builder.rs:215-221`). -/
def boolAbove : Option Bool → Option (Option Bool)
  | none => some (some false)
  | some false => some (some true)
  | some true => none

/-- The strict upper bound of a bool property (`native_query_builder.rs:227-233`). -/
def boolBelow : Option Bool → Option (Option Bool)
  | some true => some (some false)
  | some false => some none
  | none => none

/-- `lower_real` (`native_query_builder.rs:368-385`). -/
def lowerReal (value : Option IsarValue) (inclusive : Bool) : Option F64 := do
  let value ← operand IsarValue.real? F64.nan value
  if inclusive then pure value
  else if value.isNan then pure F64.negInfinity
  else if value.eq F64.infinity then none
  else pure value.toF32.nextUp.toF64

/-- `upper_real` (`native_query_builder.rs:387-404`). -/
def upperReal (value : Option IsarValue) (inclusive : Bool) : Option F64 := do
  let value ← operand IsarValue.real? F64.nan value
  if inclusive then pure value
  else if value.isNan then none
  else if value.eq F64.negInfinity then pure F64.nan
  else pure value.toF32.nextUp.toF64

/-- `char::from_u32`. -/
def charFromU32 (n : Nat) : Option Char :=
  if h : n.isValidChar then some (Char.ofNatAux n h) else none

/-- The strict lower bound of a string property (`native_query_builder.rs:302-315`): the last
character is replaced by its successor. -/
def stringAbove : Option (List Char) → Option (Option (List Char))
  | some lower =>
    match lower.getLast? with
    | none => some (some ['\u0000'])
    | some lastChar => (charFromU32 (lastChar.toNat + 1)).map fun newLastChar =>
        some (lower.dropLast ++ [newLastChar])
  | none => some (some [])

/-- The strict upper bound of a string property (`native_query_builder.rs:317-338`): the last
character is replaced by its predecessor, or dropped if it has none. -/
def stringBelow : Option (List Char) → Option (Option (List Char))
  | some upper =>
    match upper.getLast? with
    | none => some none
    | some lastChar =>
      if 0 < lastChar.toNat then
        (charFromU32 (lastChar.toNat - 1)).map fun newLastChar =>
          some (upper.dropLast ++ [newLastChar])
      else some (some upper.dropLast)
  | none => none

/-- Bool properties (`native_query_builder.rs:209-234`). -/
def boolBounds := bounds (fun v => v.bool?.map some) boolAbove boolBelow none none

/-- Byte properties (`native_query_builder.rs:235-254`); the upper null is the greatest byte. -/
def byteBounds := bounds IsarValue.u8? checkedAddU8 checkedSubU8 0 255

/-- Int properties (`native_query_builder.rs:255-274`). -/
def intBounds :=
  bounds IsarValue.i32? checkedAddI32 checkedSubI32 Int32.minValue Int32.minValue

/-- Long properties (`native_query_builder.rs:280-299`) and the id (`:345-363`). -/
def longBounds :=
  bounds IsarValue.i64? checkedAddI64 checkedSubI64 Int64.minValue Int64.minValue

/-- String properties (`native_query_builder.rs:301-340`). -/
def stringBounds := bounds (fun v => v.string?.map some) stringAbove stringBelow none none

/-- `get_max` (`native_query_builder.rs:406-427`). -/
def getMax : Option NativeProperty → Option IsarValue
  | some p =>
    match p.dataType with
    | .bool | .boolList => some (.bool true)
    | .byte | .byteList => some (.integer 255)
    | .int | .intList => some (.integer 2147483647)
    | .float | .floatList | .double | .doubleList => some (.real F64.infinity)
    | .long | .longList => some (.integer Int64.maxValue)
    | .string | .stringList | .json => some (.string IsarValue.maxString)
    | .object | .objectList => none
  | none => some (.integer Int64.maxValue)

variable (toLowercase : List Char → List Char)

/-- `native_between_filter` (`native_query_builder.rs:198-366`). -/
def nativeBetweenFilter (property : Option NativeProperty) (lower : Option IsarValue)
    (includeLower : Bool) (upper : Option IsarValue) (includeUpper : Bool) (caseSensitive : Bool) :
    Option NativeFilter :=
  match property with
  | some p =>
    match p.dataType with
    | .bool | .boolList =>
      (boolBounds lower includeLower upper includeUpper).map fun (l, u) =>
        .create p .bool .boolList (.bool l u)
    | .byte | .byteList =>
      (byteBounds lower includeLower upper includeUpper).map fun (l, u) =>
        .create p .byte .byteList (.byte l u)
    | .int | .intList =>
      (intBounds lower includeLower upper includeUpper).map fun (l, u) =>
        .create p .int .intList (.int l u)
    | .float | .floatList => do
      let l ← lowerReal lower includeLower
      let u ← upperReal upper includeUpper
      pure (.create p .float .floatList (.float l.toF32 u.toF32))
    | .long | .longList =>
      (longBounds lower includeLower upper includeUpper).map fun (l, u) =>
        .create p .long .longList (.long l u)
    | .double | .doubleList => do
      let l ← lowerReal lower includeLower
      let u ← upperReal upper includeUpper
      pure (.create p .double .doubleList (.double l u))
    | .string | .stringList | .json =>
      (stringBounds lower includeLower upper includeUpper).map fun (l, u) =>
        .string toLowercase p l u caseSensitive
    | .object | .objectList => none
  | none =>
    (longBounds lower includeLower upper includeUpper).map fun (l, u) => .idBetween l u

/-- The string operand of a pattern condition. -/
def patternOperand (condition : FilterCondition) : Option (List Char) := do
  let value ← condition.values[0]?
  let value ← value
  value.string?

/-- `condition_to_native` (`native_query_builder.rs:114-196`). -/
def conditionToNative (condition : FilterCondition) (collection : NativeCollection) :
    Option NativeFilter :=
  let property := collection.getProperty condition.propertyIndex
  let between := nativeBetweenFilter toLowercase property
  let caseSensitive := condition.caseSensitive
  match condition.conditionType with
  | .isNull => property.map fun p => .isNull p.offset p.dataType
  | .equal => do
    let value ← condition.values[0]?
    between value true value true caseSensitive
  | .greater => do
    let value ← condition.values[0]?
    between value false (getMax property) true caseSensitive
  | .greaterOrEqual => do
    let value ← condition.values[0]?
    between value true (getMax property) true caseSensitive
  | .less => do
    let value ← condition.values[0]?
    between none true value false caseSensitive
  | .lessOrEqual => do
    let value ← condition.values[0]?
    between none true value true caseSensitive
  | .between => do
    let lower ← condition.values[0]?
    let upper ← condition.values[1]?
    between lower true upper true caseSensitive
  | .stringStartsWith => do
    let lower ← patternOperand condition
    let p ← property
    pure (.string toLowercase p (some lower) (some (lower ++ IsarValue.maxString)) caseSensitive)
  | .stringEndsWith => do
    let value ← patternOperand condition
    let p ← property
    pure (.stringEndsWith toLowercase p value caseSensitive)
  | .stringContains => do
    let value ← patternOperand condition
    let p ← property
    pure (.stringContains toLowercase p value caseSensitive)
  | .stringMatches => do
    let value ← patternOperand condition
    let p ← property
    pure (.stringMatches toLowercase p value caseSensitive)

/-- The bounds that a comparison is compiled to, and whether they are inclusive. -/
def comparisonBounds (t : ConditionType) (max lower upper : Option IsarValue) :
    Option IsarValue × Bool × Option IsarValue × Bool :=
  match t with
  | .greater => (lower, false, max, true)
  | .greaterOrEqual => (lower, true, max, true)
  | .less => (none, true, lower, false)
  | .lessOrEqual => (none, true, lower, true)
  | .between => (lower, true, upper, true)
  | _ => (lower, true, lower, true)

theorem conditionToNative_comparison {condition : FilterCondition} {collection : NativeCollection}
    {lower upper : Option IsarValue} (comparison : condition.conditionType.isComparison = true)
    (operands : condition.Operands lower upper) :
    conditionToNative toLowercase condition collection =
      let property := collection.getProperty condition.propertyIndex
      let (l, includeLower, u, includeUpper) :=
        comparisonBounds condition.conditionType (getMax property) lower upper
      nativeBetweenFilter toLowercase property l includeLower u includeUpper
        condition.caseSensitive := by
  obtain ⟨first, second⟩ := operands
  unfold conditionToNative
  cases h : condition.conditionType <;> rw [h] at comparison second <;>
    simp_all [comparisonBounds, ConditionType.isComparison]

mutual

/-- `filter_to_native` (`native_query_builder.rs:71-112`); a JSON filter is `todo!()` there. -/
def filterToNative (collection : NativeCollection) (all : List NativeCollection) :
    Filter → Option NativeFilter
  | .condition condition =>
    some ((conditionToNative toLowercase condition collection).getD (.stat false))
  | .json _ => none
  | .nested propertyIndex filter =>
    match collection.getProperty propertyIndex with
    | some p =>
      match p.embeddedCollectionIndex with
      | some index => do
        let embedded ← all[index.toNat]?
        let filter ← filterToNative embedded all filter
        pure (.nestedIn p filter)
      | none => some (.stat false)
    | none => some (.stat false)
  | .and filters => (filtersToNative collection all filters).map .and
  | .or filters => (filtersToNative collection all filters).map .or
  | .not filter => (filterToNative collection all filter).map .not

def filtersToNative (collection : NativeCollection) (all : List NativeCollection) :
    List Filter → Option (List NativeFilter)
  | [] => some []
  | filter :: filters => do
    let filter ← filterToNative collection all filter
    let filters ← filtersToNative collection all filters
    pure (filter :: filters)

end

end IsarPlus.Native
