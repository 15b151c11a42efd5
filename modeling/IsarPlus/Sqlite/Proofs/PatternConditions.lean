import IsarPlus.Core.StringPatterns
import IsarPlus.Sqlite.Proofs.Conditions

/-!
# Translated string patterns

The `LIKE` patterns that the string conditions are translated to. Escaping makes every character of
an operand a literal, and what a wildcard stands for is put in after it.
-/

namespace IsarPlus.Sqlite
open Scalar Sql

/-! ## Escaping -/

/-- What a character of an operand becomes. -/
def escapeChar (c : Char) : List Char :=
  if c = '\\' ∨ c = '%' ∨ c = '_' then ['\\', c] else [c]

theorem escapeWildcard_eq (wildcard : List Char) :
    escapeWildcard wildcard = wildcard.flatMap escapeChar := by
  unfold escapeWildcard replaceChar
  rw [List.flatMap_assoc, List.flatMap_assoc]
  congr 1
  funext c
  by_cases backslash : c = '\\'
  · subst backslash; rfl
  by_cases percent : c = '%'
  · subst percent; rfl
  by_cases underscore : c = '_'
  · subst underscore; rfl
  simp [escapeChar, backslash, percent, underscore]

theorem likeTokens_escaped (c : Char) (pattern : List Char) :
    likeTokens '\\' ('\\' :: c :: pattern) = (likeTokens '\\' pattern).map (.lit c :: ·) := by
  rw [likeTokens.eq_def]
  rfl

theorem likeTokens_plain {c : Char} (h : c ≠ '\\') (pattern : List Char) :
    likeTokens '\\' (c :: pattern) = (likeTokens '\\' pattern).map
      ((if c = '%' then .star else if c = '_' then .any else .lit c) :: ·) := by
  rw [likeTokens.eq_def]
  exact if_neg h

/-- An escaped character stands for itself. -/
theorem likeTokens_escapeChar (c : Char) (pattern : List Char) :
    likeTokens '\\' (escapeChar c ++ pattern) =
      (likeTokens '\\' pattern).map (.lit c :: ·) := by
  unfold escapeChar
  split
  · exact likeTokens_escaped c pattern
  · rename_i plain
    simp only [not_or] at plain
    rw [List.cons_append, List.nil_append, likeTokens_plain plain.1, if_neg plain.2.1,
      if_neg plain.2.2]

/-- What a character of a wildcard becomes. -/
def wildcardChar (c : Char) : List Char :=
  if c = '*' then ['%'] else if c = '?' then ['_'] else escapeChar c

theorem replaceChar_wildcards (wildcard : List Char) :
    replaceChar '?' ['_'] (replaceChar '*' ['%'] (escapeWildcard wildcard)) =
      wildcard.flatMap wildcardChar := by
  rw [escapeWildcard_eq]
  unfold replaceChar
  rw [List.flatMap_assoc, List.flatMap_assoc]
  congr 1
  funext c
  by_cases star : c = '*'
  · subst star; rfl
  by_cases any : c = '?'
  · subst any; rfl
  by_cases special : c = '\\' ∨ c = '%' ∨ c = '_'
  · rcases special with rfl | rfl | rfl <;> rfl
  · simp [wildcardChar, escapeChar, star, any, special]

/-- How an element of a pattern is spelled. -/
def spellToken : Glob.Token Char → List Char
  | .lit c => escapeChar c
  | .any => ['_']
  | .star => ['%']

theorem spellToken_wildcardToken (c : Char) : spellToken (wildcardToken c) = wildcardChar c := by
  unfold wildcardChar wildcardToken
  by_cases star : c = '*'
  · rw [if_pos star, if_pos star]
    rfl
  by_cases any : c = '?'
  · rw [if_neg star, if_neg star, if_pos any, if_pos any]
    rfl
  · rw [if_neg star, if_neg star, if_neg any, if_neg any]
    rfl

theorem likeTokens_spellToken (token : Glob.Token Char) (pattern : List Char) :
    likeTokens '\\' (spellToken token ++ pattern) =
      (likeTokens '\\' pattern).map (token :: ·) := by
  cases token with
  | lit c => exact likeTokens_escapeChar c pattern
  | any => exact likeTokens_plain (by decide) pattern
  | star => exact likeTokens_plain (by decide) pattern

/-- A spelled pattern is read back. -/
theorem likeTokens_spelled (pattern : List (Glob.Token Char)) :
    likeTokens '\\' (pattern.flatMap spellToken) = some pattern := by
  induction pattern with
  | nil => rfl
  | cons token pattern ih =>
    rw [List.flatMap_cons, likeTokens_spellToken, ih]
    rfl

theorem escapeChar_readChar (c : Char) : escapeChar (readChar c) = (escapeChar c).map readChar := by
  have backslash : readChar '\\' = '\\' := by decide
  unfold escapeChar
  by_cases special : c = '\\' ∨ c = '%' ∨ c = '_'
  · rw [if_pos special]
    rcases special with rfl | rfl | rfl <;> rfl
  · have other : ¬ (readChar c = '\\' ∨ readChar c = '%' ∨ readChar c = '_') := by
      unfold readChar
      split
      · decide
      · exact special
    rw [if_neg special, if_neg other]
    rfl

/-- What is read of a spelled pattern. -/
theorem readText_spelled (pattern : List (Glob.Token Char)) :
    readText (pattern.flatMap spellToken) = (readTokens pattern).flatMap spellToken := by
  induction pattern with
  | nil => rfl
  | cons token pattern ih =>
    by_cases ends : token = .lit '\u0000'
    · subst ends
      rfl
    have whole (c : Char) (mem : c ∈ spellToken token) : decide (c ≠ '\u0000') = true := by
      refine decide_eq_true ?_
      rintro rfl
      cases token with
      | lit c =>
        have same : c = '\u0000' := by
          simp only [spellToken, escapeChar] at mem
          split at mem
          · rcases List.mem_cons.mp mem with zero | zero
            · cases zero
            · exact (List.mem_singleton.mp zero).symm
          · exact (List.mem_singleton.mp mem).symm
        exact ends (congrArg Glob.Token.lit same)
      | any => simp [spellToken] at mem
      | star => simp [spellToken] at mem
    have rest : readText (spellToken token ++ pattern.flatMap spellToken) =
        (spellToken token).map readChar ++ readText (pattern.flatMap spellToken) := by
      unfold readText cString
      rw [List.takeWhile_append_of_pos whole, List.map_append]
    have tokens : readTokens (token :: pattern) = readToken token :: readTokens pattern := by
      simp [readTokens, ends]
    rw [List.flatMap_cons, rest, ih, tokens, List.flatMap_cons]
    congr 1
    cases token with
    | lit c => exact (escapeChar_readChar c).symm
    | any => rfl
    | star => rfl

/-! ## Conditions on a column -/

/-- The `LIKE` pattern of a string condition. -/
def likePattern (t : ConditionType) (operand : List Char) : List Char :=
  match t with
  | .stringStartsWith => escapeWildcard operand ++ ['%']
  | .stringEndsWith => '%' :: escapeWildcard operand
  | .stringContains => '%' :: (escapeWildcard operand ++ ['%'])
  | _ => replaceChar '?' ['_'] (replaceChar '*' ['%'] (escapeWildcard operand))

/-- The elements of the pattern are spelled one after the other. -/
theorem likePattern_eq {t : ConditionType} (isPattern : t.isPattern = true)
    (operand : List Char) : likePattern t operand = (t.pattern operand).flatMap spellToken := by
  have lits : (operand.map Glob.Token.lit).flatMap spellToken = escapeWildcard operand := by
    rw [List.flatMap_map, escapeWildcard_eq]
    rfl
  cases t with
  | stringStartsWith => simp [likePattern, ConditionType.pattern, lits, spellToken]
  | stringEndsWith => simp [likePattern, ConditionType.pattern, lits, spellToken]
  | stringContains => simp [likePattern, ConditionType.pattern, lits, spellToken]
  | stringMatches =>
    show replaceChar _ _ _ = (operand.map wildcardToken).flatMap spellToken
    rw [replaceChar_wildcards, List.flatMap_map]
    exact List.flatMap_congr fun c _ => (spellToken_wildcardToken c).symm
  | _ => cases isPattern

/-- The pattern is not too long, and as far as it is read it accepts what is read of the string. -/
def likeAccepts (t : ConditionType) (s operand : List Char) : Bool :=
  decide (utf8Length (likePattern t operand) ≤ maxLikePatternLength) &&
    Glob.accepts (readTokens (t.pattern operand)) (readText s)

/-- Of legible texts and a pattern that is not too long everything is read. -/
theorem likeAccepts_of_legible {t : ConditionType} (isPattern : t.isPattern = true)
    {s operand : List Char} (string : ∀ c ∈ s, Legible c) (pattern : ∀ c ∈ operand, Legible c)
    (short : utf8Length (likePattern t operand) ≤ maxLikePatternLength) :
    likeAccepts t s operand = t.matchesString s operand := by
  have legible (c : Char) (mem : Glob.Token.lit c ∈ t.pattern operand) : Legible c :=
    pattern c (t.mem_of_lit_mem_pattern mem)
  rw [likeAccepts, decide_eq_true short, Bool.true_and, readText_of_legible string,
    readTokens_of_legible legible, ConditionType.matchesString_eq isPattern]

theorem like_eq_some_true {t : ConditionType} (isPattern : t.isPattern = true)
    (s operand : List Char) :
    Sql.like '\\' (likePattern t operand) s = some true ↔ likeAccepts t s operand = true := by
  have read : likeTokens '\\' (readText (likePattern t operand)) =
      some (readTokens (t.pattern operand)) := by
    rw [likePattern_eq isPattern, readText_spelled, likeTokens_spelled]
  unfold Sql.like likeAccepts
  rw [read]
  by_cases long : maxLikePatternLength < utf8Length (likePattern t operand)
  · simp [long]
  · simp [long, not_lt.mp long]

section
variable {platform : Platform} {row : String → Value} {all : List SQLiteCollection}
  {collectionIndex : UInt16} {c : SQLiteCollection} {p : SQLiteProperty}
  {condition : FilterCondition} {v : Option (List Char)}

/-- The value of a nullable string in a column. -/
def columnString : Option (List Char) → Value
  | some s => .text s
  | none => .null

/-- A pattern condition is a `LIKE`, or false without a string operand. -/
theorem conditionSql_pattern (isPattern : condition.conditionType.isPattern = true) :
    (conditionSql c condition).getD (word (.truth false)) =
      match condition.pattern? with
      | some operand => likeSql (c.getPropertyName condition.propertyIndex)
          (likePattern condition.conditionType operand)
      | none => word (.truth false) := by
  unfold conditionSql FilterCondition.pattern? patternSql
  cases t : condition.conditionType with
  | stringStartsWith | stringEndsWith | stringContains | stringMatches =>
    rcases condition.values[0]? with _ | _ | operand
    · rfl
    · rfl
    · cases operand <;> rfl
  | _ => rw [t] at isPattern; cases isPattern

/-- What a translated pattern condition selects: case always counts, and the texts end at `U+0000`. -/
theorem run_pattern (text_text : ∀ s, platform.valueText (.text s) = s)
    (isPattern : condition.conditionType.isPattern = true)
    (collection : all[collectionIndex.toNat]? = some c)
    (property : c.getProperty condition.propertyIndex = some p) (type : p.dataType = .string)
    (stored : row p.name = columnString v) :
    ∃ text value, filterSql platform.toLowercase all collectionIndex (.condition condition) =
        some text ∧ run (platform.env row) text = some value ∧
      (value = some true ↔
        condition.testPattern (likeAccepts condition.conditionType) v = true) := by
  have name : c.getPropertyName condition.propertyIndex = p.name := by
    simp [SQLiteCollection.getPropertyName, property]
  have scalar : p.dataType.isList = false := by rw [type]; rfl
  refine ⟨(conditionSql c condition).getD (word (.truth false)), ?_⟩
  have translated : filterSql platform.toLowercase all collectionIndex (.condition condition) =
      some ((conditionSql c condition).getD (word (.truth false))) := by
    rw [filterSql, filterSqlPath, collection]
    simp [conditionSqlPath, property, scalar]
  rw [conditionSql_pattern isPattern, name] at translated ⊢
  unfold FilterCondition.testPattern
  cases operand : condition.pattern? with
  | none =>
    rw [operand] at translated
    exact ⟨_, translated, (spellsNot_truth false).spellsOr.run, by cases v <;> simp⟩
  | some operand' =>
    rw [operand] at translated
    have spells := @spellsNot_like _ (platform.env row) p.name
      (QueryParam.value (.string (likePattern condition.conditionType operand'))) '\\'
    refine ⟨_, translated, spells.spellsOr.run, ?_⟩
    have column : (platform.env row).column p.name = columnString v := stored
    have pattern : (platform.env row).value (QueryParam.value
        (.string (likePattern condition.conditionType operand'))) =
          .text (likePattern condition.conditionType operand') := rfl
    rw [column, pattern]
    cases v with
    | none => simp [columnString]
    | some s =>
      have text (s : List Char) : (platform.env row).text (.text s) = s := text_text s
      simp only [columnString, reduceCtorEq, or_self, if_false, text]
      exact like_eq_some_true isPattern s operand'

end

end IsarPlus.Sqlite
