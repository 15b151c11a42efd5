import IsarPlus.Core.FilterSemantics

/-!
# Patterns of the string conditions

Every string condition asks whether a wildcard pattern accepts the string.
-/

namespace IsarPlus

/-- The conditions that match a string against a pattern. -/
def ConditionType.isPattern : ConditionType → Bool
  | .stringStartsWith | .stringEndsWith | .stringContains | .stringMatches => true
  | _ => false

/-- The pattern that a string condition stands for. -/
def ConditionType.pattern (t : ConditionType) (operand : List Char) : List (Glob.Token Char) :=
  match t with
  | .stringStartsWith => operand.map .lit ++ [.star]
  | .stringEndsWith => .star :: operand.map .lit
  | .stringContains => .star :: (operand.map .lit ++ [.star])
  | _ => operand.map wildcardToken

/-- A literal of the pattern is a character of the operand. -/
theorem ConditionType.mem_of_lit_mem_pattern (t : ConditionType) {operand : List Char} {c : Char}
    (mem : Glob.Token.lit c ∈ t.pattern operand) : c ∈ operand := by
  have ofWildcard (h : Glob.Token.lit c ∈ operand.map wildcardToken) : c ∈ operand := by
    obtain ⟨d, inside, same⟩ := List.mem_map.mp h
    unfold wildcardToken at same
    split at same
    · cases same
    · split at same
      · cases same
      · cases same
        exact inside
  cases t with
  | stringStartsWith | stringEndsWith | stringContains => simpa [pattern] using mem
  | _ => exact ofWildcard mem

theorem ConditionType.matchesString_eq {t : ConditionType} (isPattern : t.isPattern = true)
    (s operand : List Char) : t.matchesString s operand = Glob.accepts (t.pattern operand) s := by
  rw [Bool.eq_iff_iff]
  cases t with
  | stringStartsWith => simp [matchesString, pattern, Glob.accepts_lits_star]
  | stringEndsWith => simp [matchesString, pattern, Glob.accepts_star_lits]
  | stringContains => simp [matchesString, pattern, Glob.accepts_star_lits_star]
  | stringMatches => rfl
  | _ => cases isPattern

/-- The string operand of a pattern condition. -/
def FilterCondition.pattern? (condition : FilterCondition) : Option (List Char) :=
  match (condition.values[0]? : Option (Option IsarValue)) with
  | some (some (.string operand)) => some operand
  | _ => none

/-- A test of a nullable string against the string operand of the condition; both have to be there. -/
def FilterCondition.testPattern (condition : FilterCondition) (test : List Char → List Char → Bool)
    (v : Option (List Char)) : Bool :=
  match v, condition.pattern? with
  | some s, some operand => test s operand
  | _, _ => false

/-- A nullable string as the value of a property. -/
def Datum.ofString : Option (List Char) → Datum
  | some s => .string s
  | none => .null

/-- What a pattern condition means on a nullable string. -/
theorem Datum.meets_pattern (toLowercase : List Char → List Char) {condition : FilterCondition}
    (isPattern : condition.conditionType.isPattern = true) (v : Option (List Char)) :
    (Datum.ofString v).meets toLowercase condition =
      condition.testPattern (fun s operand => condition.conditionType.matchesString
        ((if condition.caseSensitive then id else toLowercase) s)
        ((if condition.caseSensitive then id else toLowercase) operand)) v := by
  obtain ⟨propertyIndex, t, values, caseSensitive⟩ := condition
  cases v with
  | none => cases t <;> first | rfl | cases isPattern
  | some s =>
    cases t with
    | stringStartsWith | stringEndsWith | stringContains | stringMatches =>
      simp only [Datum.ofString, Datum.meets, Datum.satisfies,
        FilterCondition.testPattern, FilterCondition.pattern?]
      rcases values[0]? with _ | _ | operand
      · rfl
      · rfl
      · cases operand <;> rfl
    | _ => cases isPattern

end IsarPlus
