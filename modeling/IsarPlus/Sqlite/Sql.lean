import IsarPlus.Core.FilterJson
import IsarPlus.Lib.Sql

/-!
# SQL of filters

The filter part of `isar_core/src/sqlite/sql.rs`, with the collections of
`sqlite/sqlite_collection.rs` and the binding of parameters of `sqlite/sqlite_query.rs`. The text is
a list of tokens, as the format strings of the source spell them.
-/

namespace IsarPlus.Sqlite
open Scalar Sql

/-- `SQLiteProperty` (`sqlite_collection.rs:10-15`). -/
structure SQLiteProperty where
  name : String
  dataType : DataType
  collectionIndex : Option UInt16
  deriving DecidableEq

/-- `SQLiteCollection` (`sqlite_collection.rs:29-38`), without the watchers, the counter and the
indexes. -/
structure SQLiteCollection where
  name : String
  idName : Option String
  properties : List SQLiteProperty

namespace SQLiteCollection

/-- `get_property` (`sqlite_collection.rs:81-87`): property indexes count from one. -/
def getProperty (c : SQLiteCollection) (propertyIndex : UInt16) : Option SQLiteProperty :=
  if propertyIndex ≠ 0 then c.properties[propertyIndex.toNat - 1]? else none

/-- `get_property_name` (`sqlite_collection.rs:89-95`). -/
def getPropertyName (c : SQLiteCollection) (propertyIndex : UInt16) : String :=
  match c.getProperty propertyIndex with
  | some property => property.name
  | none => "_rowid_"

end SQLiteCollection

/-- `QueryParam` (`sqlite_query.rs`). -/
inductive QueryParam where
  | value (value : IsarValue)
  | jsonCondition (condition : JsonCondition)
  deriving DecidableEq

/-- `FN_FILTER_JSON_NAME` (`sql.rs:435`). -/
def fnFilterJsonName : String := "isar_filter_json"

/-! ## Conditions -/

/-- `str::replace` of a single character. -/
def replaceChar (c : Char) (replacement s : List Char) : List Char :=
  s.flatMap fun d => if d = c then replacement else [d]

/-- `escape_wildcard` (`sql.rs:369-374`). -/
def escapeWildcard (wildcard : List Char) : List Char :=
  replaceChar '_' ['\\', '_'] (replaceChar '%' ['\\', '%'] (replaceChar '\\' ['\\', '\\'] wildcard))

/-- `{name} IS NULL`. -/
def isNullSql (name : String) : Text QueryParam := ⟨[.name name, .is, .null], []⟩

/-- `{name} {op} ?{collate}`. -/
def compareSql (name : String) (op : Comparison) (nocase : Bool) (value : IsarValue) :
    Text QueryParam :=
  ⟨.name name :: .op op :: .placeholder :: collation nocase, [.value value]⟩

/-- `{name} {op} ?{collate} OR {name} IS NULL`. -/
def compareOrNullSql (name : String) (op : Comparison) (nocase : Bool) (value : IsarValue) :
    Text QueryParam :=
  compareSql name op nocase value ++ word .or ++ isNullSql name

/-- `{name} LIKE ? ESCAPE '\'`. -/
def likeSql (name : String) (pattern : List Char) : Text QueryParam :=
  ⟨[.name name, .like, .placeholder, .escape '\\'], [.value (.string pattern)]⟩

/-- The arms of the string conditions (`sql.rs:329-366`); an operand that is no string gives
`FALSE`. -/
def patternSql (name : String) (condition : FilterCondition) (pattern : List Char → List Char) :
    Option (Text QueryParam) := do
  match ← condition.values[0]? with
  | some (.string operand) => pure (likeSql name (pattern operand))
  | _ => pure (word (.truth false))

/-- `condition_sql` (`sql.rs:242-367`). -/
def conditionSql (collection : SQLiteCollection) (condition : FilterCondition) :
    Option (Text QueryParam) :=
  let name := collection.getPropertyName condition.propertyIndex
  let nocase := !condition.caseSensitive
  match condition.conditionType with
  | .isNull => some (isNullSql name)
  | .equal => do
    match ← condition.values[0]? with
    | some value => pure (compareSql name .eq nocase value)
    | none => pure (isNullSql name)
  | .greater => do
    match ← condition.values[0]? with
    | some value => pure (compareSql name .gt nocase value)
    | none => pure ⟨[.name name, .is, .not, .null], []⟩
  | .greaterOrEqual => do
    match ← condition.values[0]? with
    | some value => pure (compareSql name .ge nocase value)
    | none => pure (word (.truth true))
  | .less => do
    match ← condition.values[0]? with
    | some value => pure (compareOrNullSql name .lt nocase value)
    | none => pure (word (.truth false))
  | .lessOrEqual => do
    match ← condition.values[0]? with
    | some value => pure (compareOrNullSql name .le nocase value)
    | none => pure (isNullSql name)
  | .between => do
    let lower ← condition.values[0]?
    let upper ← condition.values[1]?
    match lower, upper with
    | some lower, some upper =>
      pure ⟨.name name :: .between :: .placeholder :: (collation nocase ++
        .and :: .placeholder :: collation nocase), [.value lower, .value upper]⟩
    | some lower, none => pure (compareSql name .ge nocase lower)
    | none, some upper => pure (compareOrNullSql name .le nocase upper)
    | none, none => pure (isNullSql name)
  | .stringStartsWith => patternSql name condition fun start => escapeWildcard start ++ ['%']
  | .stringEndsWith => patternSql name condition fun tail => '%' :: escapeWildcard tail
  | .stringContains => patternSql name condition fun needle =>
      '%' :: (escapeWildcard needle ++ ['%'])
  | .stringMatches => patternSql name condition fun wildcard =>
      replaceChar '?' ['_'] (replaceChar '*' ['%'] (escapeWildcard wildcard))

/-! ## Filters -/

/-- `isar_filter_json({column}, ?)`. -/
def filterJsonSql (column : String) (condition : JsonCondition) : Text QueryParam :=
  ⟨[.name fnFilterJsonName, .lparen, .name column, .comma, .placeholder, .rparen],
    [.jsonCondition condition]⟩

/-- The loop of the groups (`sql.rs:205-234`): the separator stands before every filter but the
first. -/
def joinSql (separator : Token) (filters : List (Text QueryParam)) : Text QueryParam :=
  filters.foldl (fun sql filter =>
    (if sql.tokens.isEmpty then sql else sql ++ word separator) ++ filter) ⟨[], []⟩

/-- A condition on a column, or on the value that the path selects in a JSON column
(`sql.rs:163-192`). -/
def conditionSqlPath (toLowercase : List Char → List Char) (collection : SQLiteCollection)
    (condition : FilterCondition) (path : List String) : Text QueryParam :=
  let isList := (collection.getProperty condition.propertyIndex).any (·.dataType.isList)
  let name := collection.getPropertyName condition.propertyIndex
  match path with
  | first :: path =>
    filterJsonSql first (.new toLowercase (path ++ [name]) condition.conditionType isList
      condition.values condition.caseSensitive)
  | [] =>
    if isList then
      filterJsonSql name (.new toLowercase [] condition.conditionType true condition.values
        condition.caseSensitive)
    else (conditionSql collection condition).getD (word (.truth false))

section
variable (toLowercase : List Char → List Char) (all : List SQLiteCollection)

mutual

/-- `filter_sql_path` (`sql.rs:154-240`); it panics on a collection that does not exist and on a
JSON filter. -/
def filterSqlPath (collectionIndex : UInt16) (path : List String) :
    Filter → Option (Text QueryParam)
  | .condition condition => do
    let collection ← all[collectionIndex.toNat]?
    pure (conditionSqlPath toLowercase collection condition path)
  | .json _ => none
  | .nested propertyIndex filter => do
    let collection ← all[collectionIndex.toNat]?
    match collection.getProperty propertyIndex with
    | some property =>
      if property.dataType = .object then
        let embedded ← property.collectionIndex
        filterSqlPath embedded (path ++ [property.name]) filter
      else pure (word (.truth false))
    | none => pure (word (.truth false))
  | .and filters => do
    let _ ← all[collectionIndex.toNat]?
    let sql ← filtersSqlPath collectionIndex path filters
    pure (word .lparen ++ joinSql .and sql ++ word .rparen)
  | .or filters => do
    let _ ← all[collectionIndex.toNat]?
    let sql ← filtersSqlPath collectionIndex path filters
    pure (word .lparen ++ joinSql .or sql ++ word .rparen)
  | .not filter => do
    let _ ← all[collectionIndex.toNat]?
    let sql ← filterSqlPath collectionIndex path filter
    pure (word .not ++ (word .lparen ++ sql ++ word .rparen))

def filtersSqlPath (collectionIndex : UInt16) (path : List String) :
    List Filter → Option (List (Text QueryParam))
  | [] => some []
  | filter :: filters => do
    let sql ← filterSqlPath collectionIndex path filter
    let sqls ← filtersSqlPath collectionIndex path filters
    pure (sql :: sqls)

end

/-- `filter_sql` (`sql.rs:146-152`). -/
def filterSql (collectionIndex : UInt16) (filter : Filter) : Option (Text QueryParam) :=
  filterSqlPath toLowercase all collectionIndex [] filter

end

/-! ## Evaluation -/

/-- `bind_params` (`sqlite_query.rs:330-347`); SQLite takes a NaN for null, and a pointer is null to
everything but the function that it is passed to. -/
def QueryParam.bound : QueryParam → Value
  | .value (.bool v) => .integer (if v then 1 else 0)
  | .value (.integer v) => .integer v
  | .value (.real v) => if v.isNan then .null else .real v
  | .value (.string v) => .text v
  | .jsonCondition _ => .null

/-- `sql_fn_filter_json` (`sql.rs:437-449`): text that is no JSON counts as null. -/
def sqlFnFilterJson (toLowercase : List Char → List Char) (fromStr : List Char → Option Json)
    (json : List Char) : QueryParam → Option Bool
  | .jsonCondition condition => some (condition.matchesJson toLowercase ((fromStr json).getD .null))
  | .value _ => none

/-- What SQLite and `serde_json` contribute: the text of a value (`sqlite3_value_text`) and
`serde_json::from_str`. -/
structure Platform where
  toLowercase : List Char → List Char
  valueText : Value → List Char
  fromStr : List Char → Option Json

/-- The environment in which the filter of a query is evaluated on a row. -/
def Platform.env (platform : Platform) (row : String → Value) : Env QueryParam where
  column := row
  value := QueryParam.bound
  text := platform.valueText
  call name value argument :=
    if name = fnFilterJsonName then
      sqlFnFilterJson platform.toLowercase platform.fromStr (platform.valueText value) argument
    else none

end IsarPlus.Sqlite
