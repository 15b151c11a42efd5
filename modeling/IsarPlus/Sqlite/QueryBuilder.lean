import IsarPlus.Lib.SqlSums
import IsarPlus.Native.Aggregate
import IsarPlus.Sqlite.Details

/-!
# SQLite queries

`isar_core/src/sqlite/sqlite_query_builder.rs` and of `sqlite_query.rs` the cursor and the
aggregations. A row has its id in the column of the rowid.
-/

namespace IsarPlus.Sqlite
open Scalar Sql
open Native (SortOrder Aggregation)

/-! ## Building queries -/

/-- `SQLiteQueryBuilder` (`sqlite_query_builder.rs:10-16`) without the collections. -/
structure SQLiteQueryBuilder where
  collectionIndex : UInt16
  filter : Option Filter
  sort : List (String × SortOrder × Bool)
  distinct : List (String × Bool)

/-- `SQLiteQuery` (`sqlite_query.rs:27-33`) as it is built; the parameters are part of the text of
the condition. -/
structure BuiltQuery where
  collectionIndex : UInt16
  sql : List (Clause (Text QueryParam))
  hasSortDistinct : Bool

namespace SQLiteQueryBuilder

def new (collectionIndex : UInt16) : SQLiteQueryBuilder :=
  { collectionIndex, filter := none, sort := [], distinct := [] }

def setFilter (b : SQLiteQueryBuilder) (filter : Filter) : SQLiteQueryBuilder :=
  { b with filter := some filter }

/-- `add_sort` (`sqlite_query_builder.rs:91-97`); a collection that does not exist panics. -/
def addSort (b : SQLiteQueryBuilder) (all : List SQLiteCollection) (propertyIndex : UInt16)
    (sort : SortOrder) (caseSensitive : Bool) : Option SQLiteQueryBuilder :=
  (all[b.collectionIndex.toNat]?).map fun c =>
    { b with sort := b.sort ++ [(c.getPropertyName propertyIndex, sort, caseSensitive)] }

/-- `add_distinct` (`sqlite_query_builder.rs:99-104`). -/
def addDistinct (b : SQLiteQueryBuilder) (all : List SQLiteCollection) (propertyIndex : UInt16)
    (caseSensitive : Bool) : Option SQLiteQueryBuilder :=
  (all[b.collectionIndex.toNat]?).map fun c =>
    { b with distinct := b.distinct ++ [(c.getPropertyName propertyIndex, caseSensitive)] }

/-- `{} COLLATE {}`: `NOCASE` for what is case sensitive. -/
def keySql (column : String) (caseSensitive : Bool) : Key :=
  { column, nocase := if caseSensitive then true else false }

/-- A term of `ORDER BY` (`sqlite_query_builder.rs:50-58`). -/
def sortSql (sort : String × SortOrder × Bool) : Term :=
  { key := keySql sort.1 sort.2.2, descending := if sort.2.1 = .asc then false else true }

/-- A term of `GROUP BY` (`sqlite_query_builder.rs:68-74`). -/
def distinctSql (distinct : String × Bool) : Key := keySql distinct.1 distinct.2

/-- `build_query` (`sqlite_query_builder.rs:34-80`). -/
def buildQuery (toLowercase : List Char → List Char) (all : List SQLiteCollection)
    (b : SQLiteQueryBuilder) : Option (List (Clause (Text QueryParam))) := do
  let sql : List (Clause (Text QueryParam)) ← match b.filter with
    | some filter =>
      let filterSql ← filterSql toLowercase all b.collectionIndex filter
      pure [.where_ filterSql]
    | none => pure []
  let sql := if b.sort.isEmpty then sql else sql ++ [.orderBy (b.sort.map sortSql)]
  let sql := if b.distinct.isEmpty then sql else sql ++ [.groupBy (b.distinct.map distinctSql)]
  pure sql

/-- `build` (`sqlite_query_builder.rs:106-111`). -/
def build (toLowercase : List Char → List Char) (all : List SQLiteCollection)
    (b : SQLiteQueryBuilder) : Option BuiltQuery :=
  (b.buildQuery toLowercase all).map fun sql =>
    { collectionIndex := b.collectionIndex, sql
      hasSortDistinct := !b.sort.isEmpty || !b.distinct.isEmpty }

end SQLiteQueryBuilder

/-! ## Statements -/

/-- The columns of a row, its id among them. -/
def rowColumn (row : Int64 × Row) (name : String) : Value :=
  if name = idColumn then .integer row.1 else row.2 name

/-- `offset_limit_sql` (`sql.rs:135-144`). -/
def offsetLimitSql (offset limit : Option UInt32) : List (Clause (Text QueryParam)) :=
  match offset, limit with
  | some offset, limit => [.limit (some offset.toNat) (limit.getD 0xffffffff).toNat]
  | none, some limit => [.limit none limit.toNat]
  | none, none => []

/-- The condition of a statement is parsed too. -/
def parseTail (sql : List (Clause (Text QueryParam))) : Option (Tail (Expr QueryParam)) := do
  let tail ← Tail.parse sql
  match tail.condition with
  | some text =>
    let condition ← Sql.parse text
    pure { tail with condition := some condition }
  | none => pure { tail with condition := none }

/-- What is read of a statement; `misread` stands for it where a name is not read as it is written. -/
def readTail (misread : Select (Text QueryParam) → Option (Tail (Expr QueryParam)))
    (statement : Select (Text QueryParam)) : Option (Tail (Expr QueryParam)) :=
  if ∀ name ∈ statement.names, Plain name then parseTail statement.clauses else misread statement

/-- `select_properties_sql` (`sql.rs:70-78`). -/
def selectPropertiesSql (collection : SQLiteCollection) : List String :=
  idColumn :: collection.properties.map SQLiteProperty.name

/-- The statement of `cursor` (`sqlite_query.rs:57-64`). -/
def BuiltQuery.cursorSql (query : BuiltQuery) (collection : SQLiteCollection)
    (offset limit : Option UInt32) : Select (Text QueryParam) where
  columns := selectPropertiesSql collection
  table := collection.name
  clauses := query.sql ++ offsetLimitSql offset limit

section
variable (platform : Platform)

/-- The row meets the condition. -/
def meetsCondition (tail : Tail (Expr QueryParam)) (row : Int64 × Row) : Bool :=
  match tail.condition with
  | some condition => (platform.env (rowColumn row)).eval condition = some true
  | none => true

def keptRows (tail : Tail (Expr QueryParam)) (rows : TableRows Row) : TableRows Row :=
  rows.filter (meetsCondition platform tail)

/-- What the cursor of a statement without a limit may return. -/
def CursorReturns (tail : Tail (Expr QueryParam)) (rows returned : TableRows Row) : Prop :=
  Selects (sameGroup rowColumn tail.groupBy) (!tail.groupBy.isEmpty)
    (rowOrder rowColumn tail.orderBy) (keptRows platform tail rows) returned

/-- The rows that an aggregate function of a statement ranges over, for each row that it returns. -/
def RangesOver (tail : Tail (Expr QueryParam)) (rows : TableRows Row)
    (groups : List (TableRows Row)) : Prop :=
  Aggregated (sameGroup rowColumn tail.groupBy) (!tail.groupBy.isEmpty)
    (keptRows platform tail rows) groups

end

/-! ## Aggregation -/

/-- The statement of `aggregate` (`sqlite_query.rs:86-105`), with the columns that it names. -/
def BuiltQuery.aggregateSql (query : BuiltQuery) (collection : SQLiteCollection)
    (aggregation : Aggregation) (propertyIndex : Option UInt16) : Select (Text QueryParam) where
  columns := match aggregation with
    | .count => []
    | .isEmpty => [idColumn]
    | .min | .max | .sum | .average => [collection.getPropertyName (propertyIndex.getD 0)]
  table := collection.name
  clauses := query.sql

/-- The column that is selected of the rows (`sqlite_query.rs:86-100`); `none` is an error. -/
def aggregationSql (numerals : Numerals) (aggregation : Aggregation) (property : String)
    (rows : TableRows Row) : Option Value :=
  let values := rows.map fun row => rowColumn row property
  match aggregation with
  | .count => some (.integer (Int64.ofNat rows.length))
  | .isEmpty => rows.head?.map fun row => rowColumn row idColumn
  | .min => some (extreme true values)
  | .max => some (extreme false values)
  | .sum => sumOf numerals values
  | .average => some (averageOf numerals values)

/-- What becomes of the first row of the statement (`sqlite_query.rs:108-136`). -/
def aggregateResult (casts : Casts) (aggregation : Aggregation) (propertyType : DataType)
    (first : Option Value) : Option IsarValue :=
  let stmt : SQLiteStatement := ⟨casts, first.toList⟩
  match aggregation with
  | .count => some (.integer (stmt.getLong 0))
  | .isEmpty => some (.bool first.isNone)
  | .min | .max | .sum =>
    if aggregation = .sum ∨ stmt.isNull 0 = false then
      match propertyType with
      | .byte | .int | .long => some (.integer (stmt.getLong 0))
      | .float | .double => some (.real (stmt.getDouble 0))
      | .string => some (.string (stmt.getText 0))
      | _ => none
    else none
  | .average => if stmt.isNull 0 then none else some (.real (stmt.getDouble 0))

/-- `aggregate` (`sqlite_query.rs:75-138`) on the rows of the groups, or for `IsEmpty` on those that
the statement returns; `none` is an error of the first step. -/
def aggregate (casts : Casts) (numerals : Numerals) (collection : SQLiteCollection)
    (aggregation : Aggregation) (propertyIndex : Option UInt16) (groups : List (TableRows Row))
    (returned : TableRows Row) : Option (Option IsarValue) :=
  let propertyName := collection.getPropertyName (propertyIndex.getD 0)
  let propertyType := ((collection.getProperty (propertyIndex.getD 0)).map
    SQLiteProperty.dataType).getD .long
  let result := aggregateResult casts aggregation propertyType
  let ranges := if aggregation = .isEmpty then returned.map fun row => [row] else groups
  match ranges with
  | [] => some (result none)
  | first :: _ => (aggregationSql numerals aggregation propertyName first).map fun value =>
      result (some value)

end IsarPlus.Sqlite
