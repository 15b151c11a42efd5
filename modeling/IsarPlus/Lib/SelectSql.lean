import IsarPlus.Lib.FloatArithmetic
import IsarPlus.Lib.SqlNames
import Mathlib

/-!
# SELECT statements

The clauses behind the table of a `SELECT` in the SQL dialect of SQLite: their grammar, the order of
values, and what a statement may return. The order of rows that compare equal, the order of groups
and the row that stands for a group are left open, as the documentation of SQLite leaves them open.
-/

namespace Sql
open Scalar

/-! ## The order of values -/

/-- The place of a value: null, numbers by their value, texts, blobs. -/
def Value.sortKey (nocase : Bool) : Value → Nat ×ₗ Int ×ₗ List Char ×ₗ List Nat
  | .null => toLex (0, toLex (0, toLex ([], [])))
  | .integer v => toLex (1, toLex (v.toInt * 2 ^ 1074, toLex ([], [])))
  | .real v => toLex (1, toLex (scaled v, toLex ([], [])))
  | .text s => toLex (2, toLex (0, toLex (
      if nocase then (noCase (cString s), [utf8Length s]) else (s, []))))
  | .blob bytes => toLex (3, toLex (0, toLex ([], bytes.map UInt8.toNat)))

/-- How two values are sorted; null is the least. -/
def Value.order (nocase : Bool) (a b : Value) : Ordering :=
  cmp (a.sortKey nocase) (b.sortKey nocase)

/-- A column with its collation. -/
structure Key where
  column : String
  nocase : Bool
  deriving DecidableEq, Repr

/-- A term of `ORDER BY`. -/
structure Term where
  key : Key
  descending : Bool
  deriving DecidableEq, Repr

section
variable {R : Type} (column : R → String → Value)

def Key.order (key : Key) (a b : R) : Ordering :=
  (column a key.column).order key.nocase (column b key.column)

def Term.order (term : Term) (a b : R) : Ordering :=
  if term.descending then term.key.order column b a else term.key.order column a b

/-- The order of rows; the first term that tells them apart decides. -/
def rowOrder : List Term → R → R → Ordering
  | [], _, _ => .eq
  | term :: terms, a, b => (term.order column a b).then (rowOrder terms a b)

/-- Two rows are in one group. -/
def sameGroup (keys : List Key) (a b : R) : Prop := ∀ key ∈ keys, key.order column a b = .eq

instance (keys : List Key) (a b : R) : Decidable (sameGroup column keys a b) :=
  inferInstanceAs (Decidable (∀ key ∈ keys, _))

end

/-! ## Clauses -/

/-- A clause as it is written. -/
inductive Clause (C : Type) where
  | where_ (condition : C)
  | groupBy (keys : List Key)
  | orderBy (terms : List Term)
  | limit (offset : Option Nat) (count : Nat)

/-- What stands behind the table. -/
structure Tail (C : Type) where
  condition : Option C
  groupBy : List Key
  orderBy : List Term
  limit : Option (Option Nat × Nat)

namespace Tail

variable {C : Type}

def parseWhere : List (Clause C) → Option C × List (Clause C)
  | .where_ condition :: clauses => (some condition, clauses)
  | clauses => (none, clauses)

def parseGroupBy : List (Clause C) → List Key × List (Clause C)
  | .groupBy keys :: clauses => (keys, clauses)
  | clauses => ([], clauses)

def parseOrderBy : List (Clause C) → List Term × List (Clause C)
  | .orderBy terms :: clauses => (terms, clauses)
  | clauses => ([], clauses)

def parseLimit : List (Clause C) → Option (Option Nat × Nat) × List (Clause C)
  | .limit offset count :: clauses => (some (offset, count), clauses)
  | clauses => (none, clauses)

/-- The clauses come in one order; anything else is a syntax error. -/
def parse (clauses : List (Clause C)) : Option (Tail C) :=
  let (condition, clauses) := parseWhere clauses
  let (groupBy, clauses) := parseGroupBy clauses
  let (orderBy, clauses) := parseOrderBy clauses
  let (limit, clauses) := parseLimit clauses
  if clauses.isEmpty then some { condition, groupBy, orderBy, limit } else none

end Tail

/-- A statement: what it selects of which table, and the clauses behind it. -/
structure Select (C : Type) where
  columns : List String
  table : String
  clauses : List (Clause C)

section
variable {α : Type}

def Clause.names : Clause (Text α) → List String
  | .where_ text => text.names
  | .groupBy keys => keys.map Key.column
  | .orderBy terms => terms.map fun term => term.key.column
  | .limit _ _ => []

def Select.names (s : Select (Text α)) : List String :=
  s.columns ++ s.table :: s.clauses.flatMap Clause.names

end

/-! ## Rows -/

section
variable {R : Type}

/-- One row of every group, and every group of the rows. -/
structure OnePer (same : R → R → Prop) (rows result : List R) : Prop where
  sub : ∀ r ∈ result, r ∈ rows
  apart : result.Pairwise fun a b => ¬ same a b
  all : ∀ r ∈ rows, ∃ r' ∈ result, same r r'

/-- What a statement may return of the rows that meet its condition. -/
structure Selects (same : R → R → Prop) (grouped : Bool) (order : R → R → Ordering)
    (rows result : List R) : Prop where
  rows : if grouped then OnePer same rows result else result.Perm rows
  sorted : result.Pairwise fun a b => (order a b).isLE

/-- The groups of the rows. -/
structure Groups (same : R → R → Prop) (rows : List R) (groups : List (List R)) : Prop where
  perm : groups.flatten.Perm rows
  nonempty : [] ∉ groups
  within : ∀ g ∈ groups, ∀ a ∈ g, ∀ b ∈ g, same a b
  apart : groups.Pairwise fun g h => ∀ a ∈ g, ∀ b ∈ h, ¬ same a b

/-- The rows that an aggregation ranges over: those of each group, or without `GROUP BY` all. -/
def Aggregated (same : R → R → Prop) (grouped : Bool) (rows : List R) (groups : List (List R)) :
    Prop :=
  if grouped then Groups same rows groups else ∃ all, all.Perm rows ∧ groups = [all]

end

/-! ## Aggregate functions -/

/-- `MIN` and `MAX`: a value is replaced by one that is strictly beyond it. -/
def extremeStep (isMin : Bool) (best value : Value) : Value :=
  if value = .null then best
  else if best = .null then value
  else if best.compare false value = some (if isMin then .gt else .lt) then value
  else best

def extreme (isMin : Bool) (values : List Value) : Value :=
  values.foldl (extremeStep isMin) .null

/-- No value that is not null is beyond the best one, by the keys of the values. -/
structure IsBest {K : Type} [LinearOrder K] (key : Value → K) (isMin : Bool) (values : List Value)
    (best : Value) : Prop where
  mem : best ≠ .null → best ∈ values
  least : ∀ v ∈ values, v ≠ .null →
    best ≠ .null ∧ cmp (key best) (key v) ≠ if isMin then .gt else .lt

section
variable {K : Type} [LinearOrder K] {key : Value → K} {isMin : Bool}

theorem cmp_ne_trans {x y z : K} (h : cmp x y = if isMin then .gt else .lt)
    (h' : cmp x z ≠ if isMin then .gt else .lt) : cmp y z ≠ if isMin then .gt else .lt := by
  cases isMin with
  | true =>
    simp only [if_true, Ne, cmp_eq_gt_iff, not_lt] at h h' ⊢
    exact h.le.trans h'
  | false =>
    simp only [Bool.false_eq_true, if_false, Ne, cmp_eq_lt_iff, not_lt] at h h' ⊢
    exact h'.trans h.le

theorem IsBest.step {values : List Value} {best v : Value} (h : IsBest key isMin values best)
    (comparable : best ≠ .null → v ≠ .null →
      best.compare false v = some (cmp (key best) (key v))) :
    IsBest key isMin (values ++ [v]) (extremeStep isMin best v) := by
  have same (x : Value) : cmp (key x) (key x) ≠ if isMin then .gt else .lt := by
    rw [cmp_self_eq_eq]
    cases isMin <;> decide
  unfold extremeStep
  by_cases null : v = .null
  · rw [if_pos null]
    refine ⟨fun some_ => List.mem_append_left _ (h.mem some_), fun w mem some_ => ?_⟩
    rcases List.mem_append.mp mem with old | new
    · exact h.least w old some_
    · exact absurd ((List.mem_singleton.mp new).trans null) some_
  · rw [if_neg null]
    by_cases none_ : best = .null
    · rw [if_pos none_]
      refine ⟨fun _ => List.mem_append_right _ (List.mem_singleton_self v), fun w mem some_ => ?_⟩
      rcases List.mem_append.mp mem with old | new
      · exact absurd none_ (h.least w old some_).1
      · rw [List.mem_singleton.mp new]
        exact ⟨null, same v⟩
    · rw [if_neg none_, comparable none_ null]
      by_cases beyond : cmp (key best) (key v) = if isMin then .gt else .lt
      · rw [if_pos (congrArg some beyond)]
        refine ⟨fun _ => List.mem_append_right _ (List.mem_singleton_self v),
          fun w mem some_ => ⟨null, ?_⟩⟩
        rcases List.mem_append.mp mem with old | new
        · exact cmp_ne_trans beyond (h.least w old some_).2
        · rw [List.mem_singleton.mp new]
          exact same v
      · rw [if_neg fun h => beyond (Option.some.inj h)]
        refine ⟨fun some_ => List.mem_append_left _ (h.mem some_), fun w mem some_ => ?_⟩
        rcases List.mem_append.mp mem with old | new
        · exact h.least w old some_
        · rw [List.mem_singleton.mp new]
          exact ⟨none_, beyond⟩

/-- `MIN` and `MAX` find the best of values that are compared by their keys. -/
theorem isBest_extreme {values : List Value}
    (comparable : ∀ a ∈ values, ∀ b ∈ values, a ≠ .null → b ≠ .null →
      a.compare false b = some (cmp (key a) (key b))) :
    IsBest key isMin values (extreme isMin values) := by
  induction values using List.reverseRecOn with
  | nil => exact ⟨fun h => absurd rfl h, nofun⟩
  | append_singleton values v ih =>
    have best := ih fun a memA b memB =>
      comparable a (List.mem_append_left _ memA) b (List.mem_append_left _ memB)
    have last : extreme isMin (values ++ [v]) = extremeStep isMin (extreme isMin values) v :=
      List.foldl_append
    rw [last]
    apply best.step
    intro some_ null
    exact comparable _ (List.mem_append_left _ (best.mem some_)) v
      (List.mem_append_right _ (List.mem_singleton_self v)) some_ null

end

def Fits (n : Int) : Prop := -2 ^ 63 ≤ n ∧ n < 2 ^ 63

instance (n : Int) : Decidable (Fits n) := inferInstanceAs (Decidable (_ ∧ _))

def integers (values : List Value) : List Int64 :=
  values.filterMap fun
    | .integer v => some v
    | _ => none

def total (values : List Int64) : Int := (values.map Int64.toInt).sum

/-- No sum on the way overflows. -/
def PartialFits (values : List Int64) : Prop := ∀ n ≤ values.length, Fits (total (values.take n))

instance (values : List Int64) : Decidable (PartialFits values) :=
  inferInstanceAs (Decidable (∀ n ≤ values.length, _))

def Value.isInteger : Value → Bool
  | .integer _ => true
  | _ => false

end Sql
