import IsarPlus.Dart.QueryBuilder
import Mathlib

/-!
# What a chain of filters means

The filter that the query builder makes of a chain against the chain read as a Boolean expression,
for every assignment of truth values to its conditions.
-/

namespace IsarPlus.Dart
open Precedence

section
variable {α : Type}

/-! ## Truth values -/

section
variable (v : α → Bool)

mutual

/-- The value of a filter. -/
def Filter.value : Filter α → Bool
  | .condition c => v c
  | .andGroup filters => allValues filters
  | .orGroup filters => anyValue filters
  | .notGroup filter => !filter.value
  | .objectFilter _ filter => filter.value

def allValues : List (Filter α) → Bool
  | [] => true
  | filter :: filters => filter.value && allValues filters

def anyValue : List (Filter α) → Bool
  | [] => false
  | filter :: filters => filter.value || anyValue filters

end

mutual

/-- The token of a call, in which a group or an object is one unit with the value of its chain. -/
def Step.reading : Step α → Token Bool
  | .condition c => .term (v c)
  | .and => .and
  | .or => .or
  | .not => .not
  | .group chain => .term (Precedence.value (readings chain))
  | .object _ chain => .term (Precedence.value (readings chain))

def readings : List (Step α) → List (Token Bool)
  | [] => []
  | step :: chain => step.reading :: readings chain

end

/-- The chain read as a Boolean expression. -/
def chainValue (chain : List (Step α)) : Bool := Precedence.value (readings v chain)

end

mutual

/-- The value of a filter of the core. No chain makes a JSON filter. -/
def coreTruth (v : FilterCondition → Bool) : IsarPlus.Filter → Bool
  | .condition c => v c
  | .json _ => false
  | .nested _ filter => coreTruth v filter
  | .and filters => allTrue v filters
  | .or filters => anyTrue v filters
  | .not filter => !coreTruth v filter

def allTrue (v : FilterCondition → Bool) : List IsarPlus.Filter → Bool
  | [] => true
  | filter :: filters => coreTruth v filter && allTrue v filters

def anyTrue (v : FilterCondition → Bool) : List IsarPlus.Filter → Bool
  | [] => false
  | filter :: filters => coreTruth v filter || anyTrue v filters

end

/-! ## Chains that are misread -/

mutual

/-- The chain without its conditions. -/
def Step.shape : Step α → Step Unit
  | .condition _ => .condition ()
  | .and => .and
  | .or => .or
  | .not => .not
  | .group chain => .group (shapes chain)
  | .object property chain => .object property (shapes chain)

def shapes : List (Step α) → List (Step Unit)
  | [] => []
  | step :: chain => step.shape :: shapes chain

end

mutual

/-- The call is a group with an `or`, or of such a group alone or with what follows it. -/
def Step.disjunctive : Step α → Bool
  | .group chain => chainDisjunctive false chain
  | _ => false

def chainDisjunctive (negated : Bool) : List (Step α) → Bool
  | [] => false
  | .not :: chain => chainDisjunctive (!negated) chain
  | step :: chain => (!negated && step.disjunctive) || chain.any fun s => s.token.isOr

end

/-- Something follows, and it is joined by `and`. -/
def continues : List (Step α) → Bool
  | [] => false
  | step :: _ => !step.token.isOr

/-- The chain begins with a group with an `or`, which is not negated and joined to what follows by
`and`. -/
def misread (negated : Bool) : List (Step α) → Bool
  | [] => false
  | .not :: chain => misread (!negated) chain
  | step :: chain => !negated && step.disjunctive && continues chain

mutual

/-- Neither the chain nor any chain inside it is misread. -/
def Step.faithful : Step α → Bool
  | .group chain | .object _ chain => !misread false chain && stepsFaithful chain
  | _ => true

def stepsFaithful : List (Step α) → Bool
  | [] => true
  | step :: chain => step.faithful && stepsFaithful chain

end

def chainFaithful (chain : List (Step α)) : Bool := !misread false chain && stepsFaithful chain

/-! ## Chains of one shape -/

theorem token_shape (s : Step α) : s.shape.token = s.token := by
  cases s <;> rfl

theorem tokens_shapes (chain : List (Step α)) :
    (shapes chain).map Step.token = chain.map Step.token := by
  induction chain with
  | nil => rfl
  | cons s chain ih => rw [shapes, List.map_cons, List.map_cons, token_shape, ih]

theorem anyOr_shapes (chain : List (Step α)) :
    ((shapes chain).any fun s => s.token.isOr) = chain.any fun s => s.token.isOr := by
  have eq (β : Type) (chain : List (Step β)) : (chain.any fun s => s.token.isOr) =
      (chain.map Step.token).any Token.isOr := by simp [List.any_map, Function.comp_def]
  rw [eq, eq, tokens_shapes]

mutual

theorem wellTyped_shape (s : Step α) : s.shape.wellTyped = s.wellTyped := by
  cases s with
  | group chain => exact chainWellTyped_shapes false chain
  | object property chain => exact chainWellTyped_shapes false chain
  | condition c => rfl
  | and => rfl
  | or => rfl
  | not => rfl

theorem chainWellTyped_shapes (after : Bool) (chain : List (Step α)) :
    chainWellTyped after (shapes chain) = chainWellTyped after chain := by
  cases chain with
  | nil => rfl
  | cons s chain =>
    rw [shapes, chainWellTyped, chainWellTyped, wellTyped_shape s, token_shape]
    cases s.token.accept after with
    | none => rfl
    | some between => simp only [chainWellTyped_shapes between chain]

end

mutual

theorem disjunctive_shape (s : Step α) : s.shape.disjunctive = s.disjunctive := by
  cases s with
  | group chain => exact chainDisjunctive_shapes false chain
  | object property chain => rfl
  | condition c => rfl
  | and => rfl
  | or => rfl
  | not => rfl

theorem chainDisjunctive_shapes (negated : Bool) (chain : List (Step α)) :
    chainDisjunctive negated (shapes chain) = chainDisjunctive negated chain := by
  cases chain with
  | nil => rfl
  | cons s chain =>
    have rest := anyOr_shapes chain
    cases s with
    | not => exact chainDisjunctive_shapes (!negated) chain
    | group inner =>
      simp only [shapes, Step.shape, chainDisjunctive, rest, Step.disjunctive]
      rw [chainDisjunctive_shapes false inner]
    | object property inner =>
      simp only [shapes, Step.shape, chainDisjunctive, rest, Step.disjunctive]
    | condition c => simp only [shapes, Step.shape, chainDisjunctive, rest, Step.disjunctive]
    | and => simp only [shapes, Step.shape, chainDisjunctive, rest, Step.disjunctive]
    | or => simp only [shapes, Step.shape, chainDisjunctive, rest, Step.disjunctive]

end

theorem continues_shapes (chain : List (Step α)) : continues (shapes chain) = continues chain := by
  cases chain with
  | nil => rfl
  | cons s chain => rw [shapes, continues, continues, token_shape]

theorem misread_shapes (negated : Bool) (chain : List (Step α)) :
    misread negated (shapes chain) = misread negated chain := by
  induction chain generalizing negated with
  | nil => rfl
  | cons s chain ih =>
    have same := disjunctive_shape s
    cases s with
    | not => exact ih (!negated)
    | group inner => simp only [shapes, Step.shape, misread, continues_shapes] at same ⊢; rw [same]
    | object property inner => simp only [shapes, Step.shape, misread, continues_shapes]; rfl
    | condition c => simp only [shapes, Step.shape, misread, continues_shapes]; rfl
    | and => simp only [shapes, Step.shape, misread, continues_shapes]; rfl
    | or => simp only [shapes, Step.shape, misread, continues_shapes]; rfl

mutual

theorem faithful_shape (s : Step α) : s.shape.faithful = s.faithful := by
  cases s with
  | group chain =>
    rw [Step.shape, Step.faithful, Step.faithful, misread_shapes, stepsFaithful_shapes chain]
  | object property chain =>
    rw [Step.shape, Step.faithful, Step.faithful, misread_shapes, stepsFaithful_shapes chain]
  | condition c => rfl
  | and => rfl
  | or => rfl
  | not => rfl

theorem stepsFaithful_shapes (chain : List (Step α)) :
    stepsFaithful (shapes chain) = stepsFaithful chain := by
  cases chain with
  | nil => rfl
  | cons s chain =>
    rw [shapes, stepsFaithful, stepsFaithful, faithful_shape s, stepsFaithful_shapes chain]

end

theorem chainFaithful_shapes (chain : List (Step α)) :
    chainFaithful (shapes chain) = chainFaithful chain := by
  rw [chainFaithful, chainFaithful, misread_shapes, stepsFaithful_shapes]

end

end IsarPlus.Dart
