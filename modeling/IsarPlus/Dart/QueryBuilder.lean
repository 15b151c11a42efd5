import IsarPlus.Core.Filter
import IsarPlus.Lib.Precedence

/-!
# The query builder

`isar_plus/lib/src/query_builder.dart` with the operators of `query_extensions.dart` and the filters
of `query_components.dart`, as far as they concern filters. What a generated method such as
`nameEqualTo` adds is a condition; `_buildFilter` makes of it the condition of the core that its
switch names, which is what the model starts with.
-/

namespace IsarPlus.Dart

/-- `Filter` (`query_components.dart:5-325`). -/
inductive Filter (α : Type) where
  | condition (condition : α)
  | andGroup (filters : List (Filter α))
  | orGroup (filters : List (Filter α))
  | notGroup (filter : Filter α)
  | objectFilter (property : UInt16) (filter : Filter α)

/-- `_QueryBuilder` (`query_builder.dart:34-66`). -/
structure QueryBuilder (α : Type) where
  filter : Option (Filter α) := none
  filterGroupAnd : Bool := true
  filterNot : Bool := false

namespace QueryBuilder
variable {α : Type}

/-- `addFilterCondition` (`query_builder.dart:69-103`); an empty `OrGroup` has no last filter. -/
def addFilterCondition (q : QueryBuilder α) (cond : Filter α) : QueryBuilder α :=
  let conditionToAdd := if q.filterNot then .notGroup cond else cond
  let newFilter : Filter α :=
    match q.filter with
    | none => conditionToAdd
    | some filter =>
      if q.filterGroupAnd then
        match filter with
        | .andGroup filters => .andGroup (filters ++ [conditionToAdd])
        | .orGroup filters =>
          .orGroup (filters.dropLast ++
            filters.getLast?.toList.map fun last => .andGroup [last, conditionToAdd])
        | filter => .andGroup [filter, conditionToAdd]
      else
        match filter with
        | .orGroup filters => .orGroup (filters ++ [conditionToAdd])
        | filter => .orGroup [filter, conditionToAdd]
  { filter := some newFilter, filterGroupAnd := true, filterNot := false }

/-- `group` (`query_builder.dart:106-116`), with the builder that the function returns. -/
def group (q inner : QueryBuilder α) : QueryBuilder α :=
  match inner.filter with
  | some filter => q.addFilterCondition filter
  | none => q

/-- `object` (`query_builder.dart:119-131`). -/
def object (q inner : QueryBuilder α) (property : UInt16) : QueryBuilder α :=
  match inner.filter with
  | some filter => q.addFilterCondition (.objectFilter property filter)
  | none => q

/-- `and` (`query_extensions.dart:13-15`). -/
def and (q : QueryBuilder α) : QueryBuilder α := { q with filterGroupAnd := true }

/-- `or` (`query_extensions.dart:18-20`). -/
def or (q : QueryBuilder α) : QueryBuilder α := { q with filterGroupAnd := false }

/-- `not` (`query_extensions.dart:32-34`). -/
def not (q : QueryBuilder α) : QueryBuilder α := { q with filterNot := !q.filterNot }

end QueryBuilder

/-! ## Chains -/

/-- A call on a query builder. -/
inductive Step (α : Type) where
  | condition (condition : α)
  | and
  | or
  | not
  | group (chain : List (Step α))
  | object (property : UInt16) (chain : List (Step α))

section
variable {α : Type}

mutual

def Step.run (q : QueryBuilder α) : Step α → QueryBuilder α
  | .condition c => q.addFilterCondition (.condition c)
  | .and => q.and
  | .or => q.or
  | .not => q.not
  | .group chain => q.group (runChain {} chain)
  | .object property chain => q.object (runChain {} chain) property

/-- The builder after a chain of calls. -/
def runChain (q : QueryBuilder α) : List (Step α) → QueryBuilder α
  | [] => q
  | step :: chain => runChain (step.run q) chain

end

/-- The token that a call stands for in the chain. -/
def Step.token : Step α → Precedence.Token Unit
  | .condition _ | .group _ | .object _ _ => .term ()
  | .and => .and
  | .or => .or
  | .not => .not

mutual

/-- What the types of the builders allow: `and` and `or` behind a condition, a group or an object
only (`QFilterOperator`), and a function that returns a `QAfterFilterCondition`. -/
def Step.wellTyped : Step α → Bool
  | .group chain | .object _ chain => chainWellTyped false chain
  | _ => true

def chainWellTyped (after : Bool) : List (Step α) → Bool
  | [] => after
  | step :: chain =>
    step.wellTyped && match step.token.accept after with
      | some after => chainWellTyped after chain
      | none => false

end

end

/-! ## The filter of the core -/

mutual

/-- `_buildFilter` (`impl/filter_builder.dart:3-140`); `IsarCore` wraps the filters in the variants
of its own enumeration (`isar_core_ffi/src/filter.rs:196-228`). -/
def buildFilter : Filter FilterCondition → IsarPlus.Filter
  | .condition c => .condition c
  | .andGroup [filter] => buildFilter filter
  | .andGroup filters => .and (buildFilters filters)
  | .orGroup [filter] => buildFilter filter
  | .orGroup filters => .or (buildFilters filters)
  | .notGroup filter => .not (buildFilter filter)
  | .objectFilter property filter => .nested property (buildFilter filter)

def buildFilters : List (Filter FilterCondition) → List IsarPlus.Filter
  | [] => []
  | filter :: filters => buildFilter filter :: buildFilters filters

end

/-- The filter that `buildQuery` passes to the core (`isar_collection_impl.dart:366-374`). -/
def passedFilter (chain : List (Step FilterCondition)) : Option IsarPlus.Filter :=
  (runChain {} chain).filter.map buildFilter

/-! ## Generated filters of list properties -/

/-- `nameIsNull()` (`query_filter_generator.dart:187-194`), with the case sensitivity that
`isar_plus_filter_is_null` gives it. -/
def isNullCondition (property : UInt16) : FilterCondition :=
  { propertyIndex := property, conditionType := .isNull, values := [], caseSensitive := false }

/-- `nameIsNotEmpty()` of a list (`query_filter_generator.dart:340-349`). -/
def isNotEmptyCondition (property : UInt16) : FilterCondition :=
  { propertyIndex := property, conditionType := .greaterOrEqual, values := [none]
    caseSensitive := true }

/-- `nameIsEmpty()` of a nullable list (`query_filter_generator.dart:321-338`). -/
def isEmptyChain (property : UInt16) : List (Step FilterCondition) :=
  [.not, .group [.condition (isNullCondition property), .or,
    .condition (isNotEmptyCondition property)]]

theorem passedFilter_isEmptyChain (property : UInt16) :
    passedFilter (isEmptyChain property) =
      some (.not (.or [.condition (isNullCondition property),
        .condition (isNotEmptyCondition property)])) := rfl

end IsarPlus.Dart
