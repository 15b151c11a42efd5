import IsarPlus.Native.QueryBuilder

/-!
# Comparison filters

What the filters on the properties of all types share: a comparison is compiled to bounds, and the
compiled filter is to decide the comparison.
-/

namespace IsarPlus.Native
open ByteBuffer Scalar

variable {toLowercase : List Char → List Char}

/-- A comparison on a property, as `filter_to_native` compiles it. -/
def comparisonFilter (toLowercase : List Char → List Char) (property : Option NativeProperty)
    (t : ConditionType) (lower upper : Option IsarValue) (caseSensitive : Bool) : NativeFilter :=
  let (l, includeLower, u, includeUpper) := comparisonBounds t (getMax property) lower upper
  (nativeBetweenFilter toLowercase property l includeLower u includeUpper caseSensitive).getD
    (.stat false)

theorem filterToNative_comparison {condition : FilterCondition} {collection : NativeCollection}
    {all : List NativeCollection} {lower upper : Option IsarValue}
    (comparison : condition.conditionType.isComparison = true)
    (operands : condition.Operands lower upper) :
    filterToNative toLowercase collection all (.condition condition) =
      some (comparisonFilter toLowercase (collection.getProperty condition.propertyIndex)
        condition.conditionType lower upper condition.caseSensitive) := by
  rw [filterToNative, conditionToNative_comparison toLowercase comparison operands]
  rfl

theorem evaluate_create {id : Int64} {object : IsarDeserializer} {p : NativeProperty}
    {scalar list : DataType} {test : ValueTest}
    (type : p.dataType = scalar) :
    (NativeFilter.create p scalar list test).evaluate toLowercase id object =
      test.evaluate toLowercase object p.offset := by
  rw [NativeFilter.create, if_pos type, NativeFilter.evaluate]

/-- A filter that decides `P` is exact for `Q` if and only if they are equivalent. -/
theorem exact_iff_of_decides {e : Option Bool} {P Q : Prop} [Decidable Q]
    (decides : ∃ b, e = some b ∧ (b = true ↔ P)) : e = some (decide Q) ↔ (P ↔ Q) := by
  obtain ⟨b, rfl, iff⟩ := decides
  rw [Option.some.injEq, Bool.eq_iff_iff, decide_eq_true_eq, iff]

end IsarPlus.Native
