import IsarPlus.Native.Proofs.PatternFilters
import IsarPlus.Sqlite.Proofs.PatternConditions

/-!
# String patterns in both engines

On which strings the two engines give a pattern condition its meaning. The native engine folds case
and looks at bytes; SQLite looks at characters and lets case count whatever the condition says.
-/

namespace IsarPlus
open ByteBuffer Scalar Native Sqlite

/-- Whether a filter of the native engine matches an object. -/
def nativeSelects (toLowercase : List Char → List Char) (collection : NativeCollection)
    (all : List NativeCollection) (id : Int64) (object : IsarDeserializer) (filter : Filter) :
    Option Bool :=
  (filterToNative toLowercase collection all filter).bind fun native =>
    native.evaluate toLowercase id object

/-- Whether the `WHERE` expression of a filter is true on a row. -/
def sqlSelects (platform : Platform) (all : List SQLiteCollection) (collectionIndex : UInt16)
    (row : String → Sql.Value) (filter : Filter) : Option Bool := do
  let text ← filterSql platform.toLowercase all collectionIndex filter
  let value ← Sql.run (platform.env row) text
  pure (value == some true)

/-- The strings on which both engines are exact: the native filter is exact on the folded strings,
and the pattern accepts what SQLite reads of the unfolded string, as far as SQLite reads either, if and
only if the condition holds of the folded strings. -/
def PatternExact (toLowercase : List Char → List Char) (condition : FilterCondition)
    (v : Option (List Char)) : Prop :=
  ∀ s operand, v = some s → condition.pattern? = some operand →
    NativePatternExact condition.conditionType
      (foldCase toLowercase condition.caseSensitive s)
      (foldCase toLowercase condition.caseSensitive operand) ∧
    likeAccepts condition.conditionType s operand =
      condition.conditionType.matchesString (foldCase toLowercase condition.caseSensitive s)
        (foldCase toLowercase condition.caseSensitive operand)

/-- Of legible strings and a pattern that is not too long, SQLite reads everything: there it is only
asked that folding case makes no difference to a condition that is to fold it. -/
theorem patternExact_of_legible {toLowercase : List Char → List Char} {condition : FilterCondition}
    {s operand : List Char} (isPattern : condition.conditionType.isPattern = true)
    (given : condition.pattern? = some operand) (string : ∀ c ∈ s, Sql.Legible c)
    (pattern : ∀ c ∈ operand, Sql.Legible c)
    (short : Sql.utf8Length (likePattern condition.conditionType operand) ≤
      Sql.maxLikePatternLength) :
    PatternExact toLowercase condition (some s) ↔
      NativePatternExact condition.conditionType
        (foldCase toLowercase condition.caseSensitive s)
        (foldCase toLowercase condition.caseSensitive operand) ∧
      (condition.caseSensitive = false → condition.conditionType.matchesString s operand =
        condition.conditionType.matchesString (toLowercase s) (toLowercase operand)) := by
  have whole := likeAccepts_of_legible isPattern string pattern short
  have both : PatternExact toLowercase condition (some s) ↔
      NativePatternExact condition.conditionType
        (foldCase toLowercase condition.caseSensitive s)
        (foldCase toLowercase condition.caseSensitive operand) ∧
      condition.conditionType.matchesString s operand =
        condition.conditionType.matchesString (foldCase toLowercase condition.caseSensitive s)
          (foldCase toLowercase condition.caseSensitive operand) := by
    rw [← whole]
    constructor
    · exact fun exact => exact s operand rfl given
    · rintro exact s' operand' ⟨⟩ same
      obtain rfl : operand = operand' := Option.some.inj (given.symm.trans same)
      exact exact
  rw [both]
  cases condition.caseSensitive with
  | true => simp [foldCase]
  | false => simp [foldCase]

section
variable {platform : Platform} {condition : FilterCondition} {v : Option (List Char)}
  {collection : NativeCollection} {all : List NativeCollection} {p : NativeProperty} {objectId : Int64}
  {object : IsarDeserializer} {table : SQLiteCollection} {tables : List SQLiteCollection}
  {tableIndex : UInt16} {column : SQLiteProperty} {row : String → Sql.Value}

/-- Both engines give a pattern condition its meaning exactly on the strings that `PatternExact`
describes. -/
theorem string_pattern_exact (laws : Lowercases platform.toLowercase)
    (text_text : ∀ s, platform.valueText (.text s) = s)
    (isPattern : condition.conditionType.isPattern = true)
    (property : collection.getProperty condition.propertyIndex = some p)
    (type : p.dataType = .string)
    (stored : object.readString p.offset = some (v.map Utf8.encode))
    (hTable : tables[tableIndex.toNat]? = some table)
    (hColumn : table.getProperty condition.propertyIndex = some column)
    (columnType : column.dataType = .string) (hRow : row column.name = columnString v) :
    (nativeSelects platform.toLowercase collection all objectId object (.condition condition) =
        some ((Datum.ofString v).meets platform.toLowercase condition) ∧
      sqlSelects platform tables tableIndex row (.condition condition) =
        some ((Datum.ofString v).meets platform.toLowercase condition)) ↔
      PatternExact platform.toLowercase condition v := by
  obtain ⟨text, value, translated, ran, selects⟩ :=
    run_pattern text_text isPattern hTable hColumn columnType hRow
  have sql : sqlSelects platform tables tableIndex row (.condition condition) =
      some (condition.testPattern (likeAccepts condition.conditionType) v) := by
    simp only [sqlSelects, translated, ran, Option.bind_eq_bind, Option.bind_some, Option.pure_def]
    rw [Option.some.injEq, Bool.eq_iff_iff, beq_iff_eq]
    exact selects
  rw [nativeSelects, evaluate_pattern laws isPattern property type stored, sql,
    Datum.meets_pattern platform.toLowercase isPattern]
  unfold PatternExact FilterCondition.testPattern
  cases v with
  | none => simp
  | some s =>
    cases condition.pattern? with
    | none => simp
    | some operand =>
      have folds (s : List Char) : (if condition.caseSensitive then id else platform.toLowercase) s =
          foldCase platform.toLowercase condition.caseSensitive s := by
        unfold foldCase
        split <;> rfl
      simp only [folds, Option.some.injEq, nativeMatches_iff isPattern]
      constructor
      · rintro ⟨exact, same⟩ s' operand' rfl rfl
        exact ⟨exact, same⟩
      · intro h
        exact h s operand rfl rfl

end

/-! ### Tables of one string -/

/-- A platform whose texts hold no JSON. -/
def textPlatform : Platform where
  toLowercase := List.map Char.toLower
  valueText v := match v with
    | .text s => s
    | _ => []
  fromStr _ := none

/-- A table with a string column. -/
def stringTable : SQLiteCollection := ⟨"strings", some "id", [⟨"value", .string, none⟩]⟩

/-- A row of that table. -/
def stringRow (s : List Char) : String → Sql.Value
  | "_rowid_" => .integer 1
  | _ => .text s

/-- A pattern condition on the column. -/
def patternCondition (t : ConditionType) (operand : List Char) (caseSensitive : Bool) :
    FilterCondition :=
  { propertyIndex := 1, conditionType := t, values := [some (.string operand)], caseSensitive }

theorem string_pattern_exact_contains :
    (nativeSelects textPlatform.toLowercase stringCollection [] 1 (stringObject ['a', 'B'])
        (.condition (patternCondition .stringContains ['b'] false)) =
          some ((Datum.ofString (some ['a', 'B'])).meets textPlatform.toLowercase
            (patternCondition .stringContains ['b'] false)) ∧
      sqlSelects textPlatform [stringTable] 0 (stringRow ['a', 'B'])
        (.condition (patternCondition .stringContains ['b'] false)) =
          some ((Datum.ofString (some ['a', 'B'])).meets textPlatform.toLowercase
            (patternCondition .stringContains ['b'] false))) ↔
      PatternExact textPlatform.toLowercase (patternCondition .stringContains ['b'] false)
        (some ['a', 'B']) := by
  have laws : Lowercases textPlatform.toLowercase := by
    refine ⟨rfl, fun s c h => ?_⟩
    simp only [List.mem_cons, List.not_mem_nil, or_false] at h
    rcases h with rfl | rfl <;> simp [textPlatform]
  have stored : (stringObject ['a', 'B']).readString 0 =
      some ((some ['a', 'B']).map Utf8.encode) := by decide
  have row : stringRow ['a', 'B'] "value" = columnString (some ['a', 'B']) := rfl
  exact string_pattern_exact laws (fun _ => rfl) rfl rfl rfl stored rfl rfl rfl row

/-- `é` is one character of two bytes. -/
theorem string_matches_counts_bytes :
    nativeSelects textPlatform.toLowercase stringCollection [] 1 (stringObject ['é'])
        (.condition (patternCondition .stringMatches ['?'] true)) = some false ∧
      sqlSelects textPlatform [stringTable] 0 (stringRow ['é'])
        (.condition (patternCondition .stringMatches ['?'] true)) = some true ∧
      (Datum.ofString (some ['é'])).meets textPlatform.toLowercase
        (patternCondition .stringMatches ['?'] true) = true := by
  decide

end IsarPlus
