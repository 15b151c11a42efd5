import IsarPlus.Core.FastWildMatch
import IsarPlus.Core.Filter
import IsarPlus.Lib.Utf8
import Mathlib.Order.Compare

/-!
# Conditions on JSON values

`isar_core/src/core/filter_json.rs`, and of `serde_json` the values with their `as_i64` and
`as_f64`. `toLowercase` is `str::to_lowercase`.
-/

namespace IsarPlus
open Scalar

/-- `serde_json::Number`: an integer between the least `i64` and the greatest `u64`, or a float. -/
inductive JsonNumber where
  | integer (value : Int)
  | real (value : F64)
  deriving DecidableEq, Repr

/-- `serde_json::Value`. -/
inductive Json where
  | null
  | bool (value : Bool)
  | number (value : JsonNumber)
  | string (value : List Char)
  | array (values : List Json)
  | object (map : List (String × Json))

/-- `as_i64`. -/
def JsonNumber.asI64 : JsonNumber → Option Int
  | integer v => if -2 ^ 63 ≤ v ∧ v < 2 ^ 63 then some v else none
  | real _ => none

def JsonNumber.asF64 : JsonNumber → F64
  | integer v => F64.ofInt v
  | real v => v

def Json.isNull : Json → Bool
  | null => true
  | _ => false

/-- `str::parse::<usize>`. -/
def parseUsize (s : String) : Option Nat :=
  let digits : List Char := match s.toList with
    | '+' :: digits => digits
    | digits => digits
  let value : Nat := digits.foldl (fun n c => 10 * n + (c.toNat - '0'.toNat)) 0
  if digits ≠ [] ∧ digits.all Char.isDigit ∧ value < 2 ^ 64 then some value else none

/-- `extract_value` (`filter_json.rs:146-159`). -/
def extractValue (json : Json) : List String → Option Json
  | [] => some json
  | key :: path =>
    match json with
    | .object map => extractValue ((map.lookup key).getD .null) path
    | .array values => do
      let index ← parseUsize key
      extractValue (values[index]?.getD .null) path
    | _ => none

section
variable (toLowercase : List Char → List Char) (caseSensitive : Bool)

/-- The order of `Option<i64>`, against an operand that is there: `None` is the least. -/
def compareI64 : Option Int → Int → Ordering
  | none, _ => .lt
  | some v, operand => cmp v operand

/-- How a value stands to an operand of its own type: what the arms of the comparisons below for
bools, numbers and strings have in common. -/
def compareJson : Json → IsarValue → Option Ordering
  | .bool value, .bool operand => some (cmp value operand)
  | .number value, .integer operand => some (compareI64 value.asI64 operand.toInt)
  | .number value, .real operand => value.asF64.partialCmp operand
  | .string value, .string operand =>
    some (cmp (if caseSensitive then value else toLowercase value) operand)
  | _, _ => none

def jsonEqual (value : Json) : Option IsarValue → Bool
  | none => value.isNull
  | some operand => (compareJson toLowercase caseSensitive value operand).any (· == .eq)

def jsonGreater (value : Json) : Option IsarValue → Bool
  | none => !value.isNull
  | some operand => (compareJson toLowercase caseSensitive value operand).any (· == .gt)

def jsonGreaterOrEqual (value : Json) : Option IsarValue → Bool
  | none => true
  | some operand => (compareJson toLowercase caseSensitive value operand).any (· != .lt)

def jsonLess (value : Json) (operand : Option IsarValue) : Bool :=
  if value.isNull then operand.isSome
  else operand.any fun operand =>
    (compareJson toLowercase caseSensitive value operand).any (· == .lt)

def jsonLessOrEqual (value : Json) (operand : Option IsarValue) : Bool :=
  value.isNull || operand.any fun operand =>
    (compareJson toLowercase caseSensitive value operand).any (· != .gt)

/-- Operands of one type. -/
def IsarValue.sameType : IsarValue → IsarValue → Bool
  | .bool _, .bool _ | .integer _, .integer _ | .real _, .real _ | .string _, .string _ => true
  | _, _ => false

def jsonBetween (value : Json) : Option IsarValue → Option IsarValue → Bool
  | none, upper => jsonLessOrEqual toLowercase caseSensitive value upper
  | some lower, some upper =>
    lower.sameType upper && (compareJson toLowercase caseSensitive value lower).any (· != .lt) &&
      (compareJson toLowercase caseSensitive value upper).any (· != .gt)
  | some _, none => false

/-- The string conditions share everything but what is asked of the two strings. -/
def jsonString (test : List Char → List Char → Bool) : Json → Option IsarValue → Bool
  | .string value, some (.string operand) =>
    test (if caseSensitive then value else toLowercase value) operand
  | _, _ => false

def jsonStartsWith := jsonString toLowercase caseSensitive fun value start =>
  start.isPrefixOf value

def jsonEndsWith := jsonString toLowercase caseSensitive fun value suffix =>
  suffix.isSuffixOf value

def jsonContains := jsonString toLowercase caseSensitive fun value needle =>
  decide (needle <:+: value)

def jsonMatches := jsonString toLowercase caseSensitive fun value wildcard =>
  fastWildMatch (Utf8.encode value) (Utf8.encode wildcard) == some true

end

namespace JsonCondition

variable (toLowercase : List Char → List Char) (condition : JsonCondition)

/-- The condition on a single value; `none` if an operand is missing. -/
def test : Option (Json → Bool) :=
  let operand := condition.values[0]?
  let lift (f : (List Char → List Char) → Bool → Json → Option IsarValue → Bool) :=
    operand.map fun operand value => f toLowercase condition.caseSensitive value operand
  match condition.conditionType with
  | .isNull => some Json.isNull
  | .equal => lift jsonEqual
  | .greater => lift jsonGreater
  | .greaterOrEqual => lift jsonGreaterOrEqual
  | .less => lift jsonLess
  | .lessOrEqual => lift jsonLessOrEqual
  | .between => do
    let lower ← condition.values[0]?
    let upper ← condition.values[1]?
    pure fun value => jsonBetween toLowercase condition.caseSensitive value lower upper
  | .stringStartsWith => lift jsonStartsWith
  | .stringEndsWith => lift jsonEndsWith
  | .stringContains => lift jsonContains
  | .stringMatches => lift jsonMatches

/-- `matches_value` (`filter_json.rs:16-143`): a list matches if one of its elements does. -/
def matchesValue (value : Json) : Option Bool :=
  (condition.test toLowercase).map fun test =>
    if condition.isList ∧ condition.conditionType ≠ .isNull then
      match value with
      | .array values => values.any test
      | _ => false
    else test value

/-- `JsonCondition::matches` (`filter_json.rs:7-14`). -/
def matchesJson (json : Json) : Bool :=
  match extractValue json condition.path with
  | some value => (condition.matchesValue toLowercase value).getD false
  | none => false

end JsonCondition

end IsarPlus
