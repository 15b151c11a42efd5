import IsarPlus.Core.Filter
import Mathlib.Order.WithBot

/-!
# What the comparison conditions mean

The order that both engines are to implement puts null below every value of a type, so that a
nullable value of `α` is one of `WithBot α`.
-/

namespace IsarPlus

/-- The conditions that compare a value with operands. -/
def ConditionType.isComparison : ConditionType → Bool
  | .equal | .greater | .greaterOrEqual | .less | .lessOrEqual | .between => true
  | _ => false

/-- The value satisfies the comparison; only `between` has a second operand. -/
def ConditionType.Compares {α : Type} [LinearOrder α] (t : ConditionType)
    (x lower upper : WithBot α) : Prop :=
  match t with
  | .equal => x = lower
  | .greater => lower < x
  | .greaterOrEqual => lower ≤ x
  | .less => x < lower
  | .lessOrEqual => x ≤ lower
  | .between => lower ≤ x ∧ x ≤ upper
  | _ => False

instance {α : Type} [LinearOrder α] (t : ConditionType) (x lower upper : WithBot α) :
    Decidable (t.Compares x lower upper) :=
  match t with
  | .equal => inferInstanceAs (Decidable (x = lower))
  | .greater => inferInstanceAs (Decidable (lower < x))
  | .greaterOrEqual => inferInstanceAs (Decidable (lower ≤ x))
  | .less => inferInstanceAs (Decidable (x < lower))
  | .lessOrEqual => inferInstanceAs (Decidable (x ≤ lower))
  | .between => inferInstanceAs (Decidable (lower ≤ x ∧ x ≤ upper))
  | .isNull | .stringStartsWith | .stringEndsWith | .stringContains | .stringMatches =>
    inferInstanceAs (Decidable False)

/-- The operands of a comparison, as the compiler and the SQL translation look them up. -/
def FilterCondition.Operands (condition : FilterCondition) (lower upper : Option IsarValue) :
    Prop :=
  condition.values[0]? = some lower ∧
    (condition.conditionType = .between → condition.values[1]? = some upper)

end IsarPlus
