import IsarPlus.Core.Schema
import IsarPlus.Lib.SqlNames

/-!
# The schema of a SQLite database

`isar_core/src/sqlite/schema_manager.rs` with the statements and declared types of `sqlite/sql.rs`.
SQLite keeps a catalog of tables with their columns, declared types and indexes, and reports it as
it was created; what SQLite keeps for itself under names that begin with `sqlite_` is left out, as the
readers of `sqlite/sqlite3.rs:87-133` leave it out. `refused` says which statements fail for reasons
outside the catalog (names that differ in case only, rows that violate a unique index, the disk).

The names are spliced into the texts of the statements without quotes. A statement with plain names is
read as it is meant; what SQLite makes of any other one is a parameter.
-/

namespace IsarPlus.Sqlite

/-! ## The catalog -/

structure SqlIndex where
  name : String
  unique : Bool
  columns : List String
  deriving DecidableEq, Repr

structure Table where
  name : String
  columns : List (String × String)
  indexes : List SqlIndex
  deriving DecidableEq, Repr

abbrev Catalog := List Table

/-- The statements of the schema manager. -/
inductive SchemaStatement where
  | createTable (table : String) (columns : List (String × String))
  | createIndex (table : String) (index : SqlIndex)
  | dropIndex (name : String)
  | addColumn (table : String) (column : String × String)
  | dropColumn (table : String) (column : String)
  | dropTable (table : String)
  deriving DecidableEq, Repr

/-- All names in the text of the statement are plain; that of an index has a table's in front. -/
def SchemaStatement.Plain : SchemaStatement → Prop
  | .createTable table columns => Sql.Plain table ∧ ∀ c ∈ columns, Sql.Plain c.1 ∧ Sql.PlainType c.2
  | .createIndex table index =>
    Sql.Plain table ∧ Sql.isWord index.name.toList = true ∧ ∀ c ∈ index.columns, Sql.Plain c
  | .dropIndex name => Sql.isWord name.toList = true
  | .addColumn table column => Sql.Plain table ∧ Sql.Plain column.1 ∧ Sql.PlainType column.2
  | .dropColumn table column => Sql.Plain table ∧ Sql.Plain column
  | .dropTable table => Sql.Plain table

instance (statement : SchemaStatement) : Decidable statement.Plain :=
  match statement with
  | .createTable _ _ | .addColumn _ _ | .dropColumn _ _ => inferInstanceAs (Decidable (_ ∧ _))
  | .createIndex _ _ => inferInstanceAs (Decidable (_ ∧ _ ∧ _))
  | .dropIndex _ => inferInstanceAs (Decidable (_ = _))
  | .dropTable name => inferInstanceAs (Decidable (Sql.Plain name))

namespace Catalog

def tableNames (db : Catalog) : List String := db.map Table.name

def table (db : Catalog) (name : String) : Option Table := db.find? fun t => t.name == name

/-- The names of indexes are shared by all tables. -/
def hasIndex (db : Catalog) (name : String) : Bool :=
  db.any fun t => t.indexes.any fun i => i.name == name

def modify (db : Catalog) (table : String) (f : Table → Table) : Catalog :=
  db.map fun t => if t.name = table then f t else t

/-- What a statement does; it fails where the catalog does not allow it. -/
def effect (db : Catalog) : SchemaStatement → Option Catalog
  | .createTable name columns =>
    if name ∈ db.tableNames ∨ db.hasIndex name ∨ ¬ (columns.map Prod.fst).Nodup then none
    else some (db ++ [{ name, columns, indexes := [] }])
  | .createIndex name index =>
    match db.table name with
    | some t =>
      if db.hasIndex index.name ∨ index.name ∈ db.tableNames ∨
          ∃ c ∈ index.columns, c ∉ t.columns.map Prod.fst then none
      else some (db.modify name fun t => { t with indexes := index :: t.indexes })
    | none => none
  | .dropIndex name =>
    if db.hasIndex name then
      some (db.map fun t => { t with indexes := t.indexes.filter fun i => i.name ≠ name })
    else none
  | .addColumn name column =>
    match db.table name with
    | some t =>
      if column.1 ∈ t.columns.map Prod.fst then none
      else some (db.modify name fun t => { t with columns := t.columns ++ [column] })
    | none => none
  | .dropColumn name column =>
    match db.table name with
    | some t =>
      if column ∉ t.columns.map Prod.fst ∨ ∃ i ∈ t.indexes, column ∈ i.columns then none
      else some (db.modify name fun t =>
        { t with columns := t.columns.filter fun c => c.1 ≠ column })
    | none => none
  | .dropTable name =>
    if name ∈ db.tableNames then some (db.filter fun t => t.name ≠ name) else none

/-- What a statement does that is read as it is meant. -/
def exec (refused : Catalog → SchemaStatement → Bool) (db : Catalog) (statement : SchemaStatement) :
    Option Catalog :=
  if refused db statement then none else db.effect statement

/-- What the text of a statement does; `misread` stands for what SQLite makes of it where a name is not
plain. -/
def execText (refused : Catalog → SchemaStatement → Bool)
    (misread : Catalog → SchemaStatement → Option Catalog) (db : Catalog)
    (statement : SchemaStatement) : Option Catalog :=
  if statement.Plain then db.exec refused statement else misread db statement

/-- One statement after the other, until one fails. -/
def run (execute : Catalog → SchemaStatement → Option Catalog) (db : Catalog)
    (statements : List SchemaStatement) : Option Catalog :=
  statements.foldlM execute db

end Catalog

/-! ## Declared types -/

/-- `data_type_sql` (`sql.rs:377-400`); an object without a target panics. -/
def dataTypeSql (p : PropertySchema) : Option String :=
  match p.dataType with
  | .bool => some "bool"
  | .byte => some "u8"
  | .int => some "i32"
  | .float => some "f32"
  | .long => some "i64"
  | .double => some "f64"
  | .string => some "TEXT"
  | .json => some "JSON_TEXT"
  | .object => p.collection.map fun target => target ++ "_TEXT"
  | .boolList => some "bool[]_TEXT"
  | .byteList => some "u8[]_TEXT"
  | .intList => some "i32[]_TEXT"
  | .floatList => some "f32[]_TEXT"
  | .longList => some "i64[]_TEXT"
  | .doubleList => some "f64[]_TEXT"
  | .stringList => some "str[]_TEXT"
  | .objectList => p.collection.map fun target => target ++ "[]_TEXT"

/-- `to_ascii_lowercase`. -/
def toAsciiLowercase (s : List Char) : List Char := s.map Char.toLower

/-- `sql_data_type` (`sql.rs:402-433`). -/
def sqlDataType (sqliteType : String) : DataType × Option String :=
  let cleanType : List Char :=
    if "_text".toList.isSuffixOf (toAsciiLowercase sqliteType.toList) then
      sqliteType.toList.take (sqliteType.toList.length - 5)
    else sqliteType.toList
  match String.ofList (toAsciiLowercase cleanType) with
  | "bool" => (.bool, none)
  | "u8" => (.byte, none)
  | "i32" => (.int, none)
  | "f32" => (.float, none)
  | "i64" => (.long, none)
  | "f64" => (.double, none)
  | "str" => (.string, none)
  | "text" => (.string, none)
  | "json" => (.json, none)
  | "bool[]" => (.boolList, none)
  | "u8[]" => (.byteList, none)
  | "i32[]" => (.intList, none)
  | "f32[]" => (.floatList, none)
  | "i64[]" => (.longList, none)
  | "f64[]" => (.doubleList, none)
  | "str[]" => (.stringList, none)
  | _ =>
    if "[]".toList.isSuffixOf cleanType then
      (.objectList, some (String.ofList (cleanType.take (cleanType.length - 2))))
    else (.object, some (String.ofList cleanType))

/-! ## Statements -/

/-- `SQLiteProperty::ID_NAME` (`sqlite_collection.rs:20`). -/
def idColumn : String := "_rowid_"

/-- The column of a property in `CREATE TABLE` and `ADD COLUMN`. -/
def column (p : PropertySchema) : Option (String × String) := do
  let name ← p.name
  let sqlType ← dataTypeSql p
  pure (name, sqlType)

/-- `create_table_sql` (`sql.rs:15-33`). -/
def createTableSql (collection : IsarSchema) : Option SchemaStatement := do
  let columns ← (collection.properties.filter fun p => p.name.isSome).mapM column
  pure (.createTable collection.name ((idColumn, "INTEGER") :: columns))

/-- `index_name` (`sql.rs:50-52`). -/
def indexName (table index : String) : String := table ++ "_" ++ index

/-- `create_index_sql` (`sql.rs:54-62`). -/
def createIndexSql (table : String) (index : IndexSchema) : SchemaStatement :=
  .createIndex table
    { name := indexName table index.name, unique := index.unique, columns := index.properties }

/-- `drop_index_sql` (`sql.rs:64-66`). -/
def dropIndexSql (table index : String) : SchemaStatement := .dropIndex (indexName table index)

/-! ## Migration -/

/-- `name.split('_').last()` in `read_col_schema`. -/
def lastPiece (name : String) : String :=
  String.ofList (name.toList.reverse.takeWhile fun c => c != '_').reverse

def readColumn (column : String × String) : PropertySchema :=
  let t := sqlDataType column.2
  { name := some column.1, dataType := t.1, collection := t.2 }

def readIndex (index : SqlIndex) : IndexSchema where
  name := lastPiece index.name
  properties := index.columns
  unique := index.unique
  hash := false

/-- `read_col_schema` (`schema_manager.rs:42-75`). -/
def readColSchema (db : Catalog) (name : String) : Option IsarSchema :=
  let columns : List (String × String) := ((db.table name).map Table.columns).getD []
  let indexes : List SqlIndex := ((db.table name).map Table.indexes).getD []
  let properties := columns.map readColumn
  if properties.any fun p => p.name == some idColumn then
    some
      { name
        idName := none
        embedded := false
        properties := properties.eraseP fun p => p.name == some idColumn
        indexes := indexes.map readIndex
        version := 0 }
  else none

/-- What `update_table` executes (`schema_manager.rs:77-104`). -/
def updateTable (db : Catalog) (collection : IsarSchema) : Option (List SchemaStatement) := do
  let existing ← readColSchema db collection.name
  let changes := collection.findChanges existing
  let columns ← changes.addProperties.mapM column
  pure (changes.dropIndexes.map (dropIndexSql collection.name) ++
    (changes.dropProperties.map (.dropColumn collection.name) ++
      (columns.map (.addColumn collection.name) ++
        changes.addIndexes.map (createIndexSql collection.name))))

/-- The statements for one collection (`schema_manager.rs:17-30`). -/
def migrateTable (tableNames : List String) (db : Catalog) (collection : IsarSchema) :
    Option (List SchemaStatement) :=
  if collection.embedded then some []
  else if collection.name ∈ tableNames then updateTable db collection
  else do
    let create ← createTableSql collection
    pure (create :: collection.indexes.map (createIndexSql collection.name))

section
variable (execute : Catalog → SchemaStatement → Option Catalog)

/-- The loop over the collections; what it executes, and the catalog behind it. -/
def migrateTables (tableNames : List String) (db : Catalog) :
    List IsarSchema → Option (List SchemaStatement × Catalog)
  | [] => some ([], db)
  | collection :: collections => do
    let statements ← migrateTable tableNames db collection
    let db ← db.run execute statements
    let (rest, db) ← migrateTables tableNames db collections
    pure (statements ++ rest, db)

/-- The table belongs to a collection. -/
def isCollection (schemas : List IsarSchema) (table : String) : Bool :=
  schemas.any fun c => c.name == table && !c.embedded

/-- `perform_migration` (`schema_manager.rs:12-40`); an error rolls everything back. -/
def performMigration (schemas : List IsarSchema) (db : Catalog) :
    Option (List SchemaStatement × Catalog) := do
  let tableNames := db.tableNames
  let (statements, db) ← migrateTables execute tableNames db schemas
  let drops :=
    (tableNames.filter fun table => !isCollection schemas table).map SchemaStatement.dropTable
  let db ← db.run execute drops
  pure (statements ++ drops, db)

end

end IsarPlus.Sqlite
