import IsarPlus.Core.Data

/-!
# Filters

`isar_core/src/core/filter.rs`: the tree of conditions that both engines translate.
-/

namespace IsarPlus

/-- `ConditionType` (`core/filter.rs:13-26`). -/
inductive ConditionType where
  | isNull | equal | greater | greaterOrEqual | less | lessOrEqual | between
  | stringStartsWith | stringEndsWith | stringContains | stringMatches
  deriving DecidableEq, Repr

/-- `FilterCondition` (`core/filter.rs:28-34`). -/
structure FilterCondition where
  propertyIndex : UInt16
  conditionType : ConditionType
  values : List (Option IsarValue)
  caseSensitive : Bool
  deriving DecidableEq, Repr

/-- `JsonCondition` (`core/filter.rs:52-60`): a condition on the value that `path` selects inside a
JSON column. -/
structure JsonCondition where
  path : List String
  conditionType : ConditionType
  isList : Bool
  values : List (Option IsarValue)
  caseSensitive : Bool
  deriving DecidableEq, Repr

/-- `Filter` (`core/filter.rs:3-11`); `FilterNested` is unfolded into its two fields. -/
inductive Filter where
  | condition (condition : FilterCondition)
  | json (condition : JsonCondition)
  | nested (propertyIndex : UInt16) (filter : Filter)
  | and (filters : List Filter)
  | or (filters : List Filter)
  | not (filter : Filter)

/-- `JsonCondition::new` (`core/filter.rs:62-96`): without case sensitivity the string operands are
lowercased here, once. -/
def JsonCondition.new (toLowercase : List Char → List Char) (path : List String)
    (conditionType : ConditionType) (isList : Bool) (values : List (Option IsarValue))
    (caseSensitive : Bool) : JsonCondition :=
  let values := if caseSensitive then values else values.map fun v => v.map fun
    | .string s => .string (toLowercase s)
    | v => v
  { path, conditionType, isList, values, caseSensitive }

end IsarPlus
