import IsarPlus.Core.Filter
import IsarPlus.Lib.Glob
import Mathlib.Data.List.Lex
import Mathlib.Data.Char
import Mathlib.Order.Compare

/-!
# What filters mean

The meaning that both engines are to give to a filter, on the value of an object: null is smaller
than every value, a condition on a list asks for one of its elements, a group is the conjunction or
disjunction of its filters and `not` the negation. `fold` is what is done to strings before they are
compared, unless the condition is case sensitive.
-/

namespace IsarPlus
open Scalar

/-- The value of a property, or an element of a list. Nested objects list their properties in the
order of their collection; a list or a nested object may be null. -/
inductive Datum where
  | null
  | bool (value : Bool)
  | integer (value : Int64)
  | real (value : F64)
  | string (value : List Char)
  | list (elements : Option (List Datum))
  | object (fields : Option (List Datum))

/-- The element of a pattern that a character stands for: `*` for any sequence of characters and `?`
for one character. -/
def wildcardToken (c : Char) : Glob.Token Char :=
  if c = '*' then .star else if c = '?' then .any else .lit c

/-- The string conditions, on strings that are folded already. -/
def ConditionType.matchesString (t : ConditionType) (s operand : List Char) : Bool :=
  match t with
  | .stringStartsWith => operand.isPrefixOf s
  | .stringEndsWith => operand.isSuffixOf s
  | .stringContains => decide (operand <:+: s)
  | .stringMatches => Glob.accepts (operand.map wildcardToken) s
  | _ => false

namespace Datum

def isNull : Datum → Bool
  | null | list none | object none => true
  | _ => false

section
variable (fold : List Char → List Char)

/-- How a value stands to an operand; values of different types are unordered. -/
def compare : Datum → Option IsarValue → Option Ordering
  | null, none => some .eq
  | null, some _ => some .lt
  | list _, _ | object _, _ => none
  | _, none => some .gt
  | bool v, some (.bool w) => some (cmp v w)
  | integer v, some (.integer w) => some (cmp v.toInt w.toInt)
  | real v, some (.real w) => v.partialCmp w
  | string v, some (.string w) => some (cmp (fold v) (fold w))
  | _, some _ => none

/-- A condition on a single value; it fails if an operand is missing. -/
def satisfies (t : ConditionType) (values : List (Option IsarValue)) (d : Datum) : Bool :=
  let is (test : Ordering → Bool) (operand : Option (Option IsarValue)) : Bool :=
    operand.any fun operand => (d.compare fold operand).any test
  let lower : Option (Option IsarValue) := values[0]?
  match t with
  | .isNull => d.isNull
  | .equal => is (· == .eq) lower
  | .greater => is (· == .gt) lower
  | .greaterOrEqual => is (· != .lt) lower
  | .less => is (· == .lt) lower
  | .lessOrEqual => is (· != .gt) lower
  | .between => is (· != .lt) lower && is (· != .gt) values[1]?
  | t =>
    match d, lower with
    | string s, some (some (.string operand)) => t.matchesString (fold s) (fold operand)
    | _, _ => false

end

/-- A condition on the value of a property. -/
def meets (fold : List Char → List Char) (condition : FilterCondition) (d : Datum) : Bool :=
  let fold := if condition.caseSensitive then id else fold
  match d with
  | list elements =>
    if condition.conditionType = .isNull then elements.isNone
    else elements.any fun elements =>
      elements.any (satisfies fold condition.conditionType condition.values)
  | d => d.satisfies fold condition.conditionType condition.values

end Datum

/-- The value of the property with an index, counted from one; index 0 and indexes that no property
has are the id. -/
def propertyValue (id : Datum) (fields : List Datum) (propertyIndex : UInt16) : Datum :=
  if propertyIndex ≠ 0 then fields[propertyIndex.toNat - 1]?.getD id else id

section
variable (fold : List Char → List Char)

mutual

/-- The filter holds of the object with this id and these properties. A nested object has no id, and
no filter holds of a null object. JSON filters select from the value of a property what no schema
describes; no engine translates them. -/
def Filter.holds (id : Datum) (fields : List Datum) : Filter → Bool
  | .condition c => (propertyValue id fields c.propertyIndex).meets fold c
  | .json _ => false
  | .nested propertyIndex filter =>
    match propertyValue id fields propertyIndex with
    | .object (some inner) => filter.holds .null inner
    | _ => false
  | .and filters => Filter.allHold id fields filters
  | .or filters => Filter.someHolds id fields filters
  | .not filter => !filter.holds id fields

def Filter.allHold (id : Datum) (fields : List Datum) : List Filter → Bool
  | [] => true
  | filter :: filters => filter.holds id fields && Filter.allHold id fields filters

def Filter.someHolds (id : Datum) (fields : List Datum) : List Filter → Bool
  | [] => false
  | filter :: filters => filter.holds id fields || Filter.someHolds id fields filters

end

end

end IsarPlus
