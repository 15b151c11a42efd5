import IsarPlus.Lib.SqlNames
import IsarPlus.Sqlite.Sql

/-!
# Names in the texts of filters

The text of a filter names properties of the collection that it is about, the id, and the function
that conditions on JSON call. The names of nested properties are parameters of that function.
-/

namespace IsarPlus.Sqlite
open Sql

/-- The names of a collection that stand in statements are plain. -/
structure SQLiteCollection.PlainNames (c : SQLiteCollection) : Prop where
  name : Plain c.name
  properties : ∀ p ∈ c.properties, Plain p.name

theorem plain_rowid : Plain "_rowid_" := by decide +kernel

theorem plain_fnFilterJsonName : Plain fnFilterJsonName := by decide +kernel

theorem SQLiteCollection.getProperty_mem {c : SQLiteCollection} {propertyIndex : UInt16}
    {p : SQLiteProperty} (property : c.getProperty propertyIndex = some p) : p ∈ c.properties := by
  unfold SQLiteCollection.getProperty at property
  split at property
  · exact List.mem_of_getElem? property
  · cases property

theorem SQLiteCollection.PlainNames.getPropertyName {c : SQLiteCollection} (names : c.PlainNames)
    (propertyIndex : UInt16) : Plain (c.getPropertyName propertyIndex) := by
  unfold SQLiteCollection.getPropertyName
  split
  · rename_i p property
    exact names.properties p (SQLiteCollection.getProperty_mem property)
  · exact plain_rowid

section
variable {toLowercase : List Char → List Char} {all : List SQLiteCollection}

@[simp] theorem names_word (token : Token) :
    (word token : Text QueryParam).names = token.name?.toList := by
  cases token <;> rfl

@[simp] theorem filterMap_name_collation (nocase : Bool) :
    (collation nocase).filterMap Token.name? = [] := by
  cases nocase <;> rfl

@[simp] theorem names_mk (tokens : List Token) (params : List QueryParam) :
    (Text.mk tokens params).names = tokens.filterMap Token.name? := rfl

@[simp] theorem names_isNullSql (name : String) : (isNullSql name).names = [name] := rfl

@[simp] theorem names_compareSql (name : String) (op : Comparison) (nocase : Bool)
    (value : IsarValue) : (compareSql name op nocase value).names = [name] := by
  cases nocase <;> rfl

@[simp] theorem names_compareOrNullSql (name : String) (op : Comparison) (nocase : Bool)
    (value : IsarValue) : (compareOrNullSql name op nocase value).names = [name, name] := by
  simp [compareOrNullSql, Token.name?]

@[simp] theorem names_likeSql (name : String) (pattern : List Char) :
    (likeSql name pattern).names = [name] := rfl

/-- A condition on a column names that column only. -/
theorem names_conditionSql {c : SQLiteCollection} {condition : FilterCondition}
    {text : Text QueryParam} (translated : conditionSql c condition = some text) {name : String}
    (mem : name ∈ text.names) : name = c.getPropertyName condition.propertyIndex := by
  have pattern {rewrite : List Char → List Char}
      (translated : patternSql (c.getPropertyName condition.propertyIndex) condition rewrite =
        some text) : name = c.getPropertyName condition.propertyIndex := by
    obtain ⟨operand, -, eq⟩ := Option.bind_eq_some_iff.mp translated
    split at eq <;> cases eq
    · simpa using mem
    · simp [Token.name?] at mem
  unfold conditionSql at translated
  cases type : condition.conditionType with
  | stringStartsWith | stringEndsWith | stringContains | stringMatches =>
    rw [type] at translated
    exact pattern translated
  | isNull =>
    rw [type] at translated
    cases translated
    simpa using mem
  | between =>
    rw [type] at translated
    obtain ⟨lower, -, rest⟩ := Option.bind_eq_some_iff.mp translated
    obtain ⟨upper, -, eq⟩ := Option.bind_eq_some_iff.mp rest
    cases lower <;> cases upper <;> cases eq <;>
      simpa [Token.name?, List.filterMap_cons, -List.mem_filterMap] using mem
  | equal | greater | greaterOrEqual | less | lessOrEqual =>
    rw [type] at translated
    obtain ⟨operand, -, eq⟩ := Option.bind_eq_some_iff.mp translated
    cases operand <;> cases eq <;> simp [Token.name?] at mem <;> exact mem

/-- What the texts of filters at a path may name: the column that the path begins with, or at the top
the columns of the collection. -/
structure PathNames (all : List SQLiteCollection) (collectionIndex : UInt16) (path : List String) :
    Prop where
  first : ∀ name ∈ path.head?, Plain name
  own : path = [] → ∀ c ∈ all[collectionIndex.toNat]?, c.PlainNames

theorem PathNames.inner {collectionIndex embedded : UInt16} {path : List String}
    {c : SQLiteCollection} (names : PathNames all collectionIndex path)
    (collection : all[collectionIndex.toNat]? = some c) {p : SQLiteProperty} (mem : p ∈ c.properties) :
    PathNames all embedded (path ++ [p.name]) := by
  refine ⟨fun name head => ?_, fun empty => absurd empty (by simp)⟩
  cases path with
  | nil =>
    cases Option.some.inj head
    exact (names.own rfl c collection).properties p mem
  | cons first path => exact names.first name head

theorem plain_conditionSqlPath {collectionIndex : UInt16} {path : List String}
    {c : SQLiteCollection} (names : PathNames all collectionIndex path)
    (collection : all[collectionIndex.toNat]? = some c) (condition : FilterCondition) :
    ∀ name ∈ (conditionSqlPath toLowercase c condition path).names, Plain name := by
  have json {column : String} (plain : Plain column) (called : JsonCondition) :
      ∀ name ∈ (filterJsonSql column called).names, Plain name :=
    List.forall_mem_cons.mpr ⟨plain_fnFilterJsonName, List.forall_mem_singleton.mpr plain⟩
  unfold conditionSqlPath
  cases path with
  | cons first path => exact json (names.first first rfl) _
  | nil =>
    have own := (names.own rfl c collection).getPropertyName condition.propertyIndex
    dsimp only
    split
    · exact json own _
    · cases translated : conditionSql c condition with
      | none => exact nofun
      | some text =>
        intro name mem
        rw [names_conditionSql translated mem]
        exact own

/-- The separators and the parentheses name nothing. -/
theorem names_joinSql {separator : Token} (unnamed : separator.name? = none)
    (texts : List (Text QueryParam)) :
    (joinSql separator texts).names = texts.flatMap Text.names := by
  have joined (text : Text QueryParam) : (texts.foldl (fun sql filter =>
      (if sql.tokens.isEmpty then sql else sql ++ word separator) ++ filter) text).names =
        text.names ++ texts.flatMap Text.names := by
    induction texts generalizing text with
    | nil => simp
    | cons next texts ih =>
      rw [List.foldl_cons, ih, List.flatMap_cons, ← List.append_assoc]
      congr 1
      split <;> simp [unnamed]
  exact joined ⟨[], []⟩

theorem plain_group {separator : Token} (unnamed : separator.name? = none)
    {texts : List (Text QueryParam)} (plain : ∀ text ∈ texts, ∀ name ∈ text.names, Plain name) :
    ∀ name ∈ (word .lparen ++ joinSql separator texts ++ word .rparen : Text QueryParam).names,
      Plain name := by
  intro name mem
  simp only [names_append, names_word, Token.name?, Option.toList_none, List.nil_append,
    List.append_nil, names_joinSql unnamed] at mem
  obtain ⟨text, own, mem⟩ := List.mem_flatMap.mp mem
  exact plain text own name mem

mutual

/-- By induction on the filter: below a path, only its first name stands in the text. -/
theorem plain_filterSqlPath : (filter : Filter) → {collectionIndex : UInt16} →
    {path : List String} → {text : Text QueryParam} → PathNames all collectionIndex path →
    filterSqlPath toLowercase all collectionIndex path filter = some text →
    ∀ name ∈ text.names, Plain name
  | .condition condition, collectionIndex, _, _, names, translated => by
    rw [filterSqlPath] at translated
    obtain ⟨c, collection, eq⟩ := Option.bind_eq_some_iff.mp translated
    cases eq
    exact plain_conditionSqlPath names collection condition
  | .json _, _, _, _, _, translated => by
    rw [filterSqlPath] at translated
    cases translated
  | .nested propertyIndex filter, collectionIndex, _, _, names, translated => by
    rw [filterSqlPath] at translated
    obtain ⟨c, collection, rest⟩ := Option.bind_eq_some_iff.mp translated
    cases property : c.getProperty propertyIndex with
    | none =>
      rw [property] at rest
      cases rest
      exact nofun
    | some p =>
      simp only [property] at rest
      split at rest
      · obtain ⟨embedded, -, inner⟩ := Option.bind_eq_some_iff.mp rest
        exact plain_filterSqlPath filter
          (names.inner collection (SQLiteCollection.getProperty_mem property)) inner
      · cases rest
        exact nofun
  | .and filters, _, _, _, names, translated => by
    rw [filterSqlPath] at translated
    obtain ⟨c, -, rest⟩ := Option.bind_eq_some_iff.mp translated
    obtain ⟨texts, each, eq⟩ := Option.bind_eq_some_iff.mp rest
    cases eq
    exact plain_group rfl (plain_filtersSqlPath filters names each)
  | .or filters, _, _, _, names, translated => by
    rw [filterSqlPath] at translated
    obtain ⟨c, -, rest⟩ := Option.bind_eq_some_iff.mp translated
    obtain ⟨texts, each, eq⟩ := Option.bind_eq_some_iff.mp rest
    cases eq
    exact plain_group rfl (plain_filtersSqlPath filters names each)
  | .not filter, _, _, _, names, translated => by
    rw [filterSqlPath] at translated
    obtain ⟨c, -, rest⟩ := Option.bind_eq_some_iff.mp translated
    obtain ⟨text, inner, eq⟩ := Option.bind_eq_some_iff.mp rest
    cases eq
    simpa [Token.name?] using plain_filterSqlPath filter names inner

theorem plain_filtersSqlPath : (filters : List Filter) → {collectionIndex : UInt16} →
    {path : List String} → {texts : List (Text QueryParam)} → PathNames all collectionIndex path →
    filtersSqlPath toLowercase all collectionIndex path filters = some texts →
    ∀ text ∈ texts, ∀ name ∈ text.names, Plain name
  | [], _, _, _, _, translated => by
    rw [filtersSqlPath] at translated
    cases translated
    exact nofun
  | filter :: filters, _, _, _, names, translated => by
    rw [filtersSqlPath] at translated
    obtain ⟨text, head, rest⟩ := Option.bind_eq_some_iff.mp translated
    obtain ⟨texts, tail, eq⟩ := Option.bind_eq_some_iff.mp rest
    cases eq
    exact List.forall_mem_cons.mpr
      ⟨plain_filterSqlPath filter names head, plain_filtersSqlPath filters names tail⟩

end

/-- The text of a filter on a collection with plain names has plain names only. -/
theorem plain_filterSql {collectionIndex : UInt16} {c : SQLiteCollection}
    (collection : all[collectionIndex.toNat]? = some c) (names : c.PlainNames) {filter : Filter}
    {text : Text QueryParam}
    (translated : filterSql toLowercase all collectionIndex filter = some text) :
    ∀ name ∈ text.names, Plain name := by
  refine plain_filterSqlPath filter ⟨fun _ head => absurd head (Option.not_mem_none _),
    fun _ c' collection' => ?_⟩ translated
  cases Option.some.inj (collection.symm.trans collection')
  exact names

end

end IsarPlus.Sqlite
