import IsarPlus.Dart.QueryBuilder
import IsarPlus.Sqlite.Proofs.FilterTranslation
import IsarPlus.Sqlite.Proofs.Inserts

/-!
# Conditions on the emptiness of list columns

`isar_filter_json` looks at the JSON that it finds in a column. A list that was written element by
element is the text of an array, which is read back unless it is nested too deeply; a list of bytes
that was written at once is a blob.
-/

namespace IsarPlus

/-! ## Documents -/

mutual

/-- How deeply arrays and objects are nested. -/
def Json.depth : Json → Nat
  | .array values => Json.depths values + 1
  | .object map => Json.fieldDepths map + 1
  | _ => 0

def Json.depths : List Json → Nat
  | [] => 0
  | value :: values => max value.depth (Json.depths values)

def Json.fieldDepths : List (String × Json) → Nat
  | [] => 0
  | (_, value) :: map => max value.depth (Json.fieldDepths map)

end

/-- The number of elements of an array. -/
def Json.length? : Json → Option Nat
  | .array values => some values.length
  | _ => none

namespace Sqlite
open Scalar Sql

/-- What `serde_json` does with the text of an array: `from_str` gives up at the 128th level. -/
structure PrintsArray (platform : Platform) (codecs : Codecs) (values : List Json) : Prop where
  shallow : (Json.array values).depth < 128 → ∃ values',
    platform.fromStr (codecs.toString (.array values)) = some (.array values') ∧
      values'.length = values.length
  deep : 128 ≤ (Json.array values).depth →
    platform.fromStr (codecs.toString (.array values)) = none

/-- The array that is written for a list, as a column stores it. -/
def listJson (codecs : Codecs) (all : List SQLiteCollection) (p : SQLiteProperty) (k : UInt16)
    (length : UInt32) (writes : List (UInt32 × Written)) : List Json :=
  let writer : SQLiteListWriter :=
    { collectionIndex := p.collectionIndex
      propertyIndex := k
      list := List.replicate length.toNat .null }
  (writer.writeAll codecs.encode all writes).list

theorem length_listJson (codecs : Codecs) (all : List SQLiteCollection) (p : SQLiteProperty)
    (k : UInt16) (length : UInt32) (writes : List (UInt32 × Written)) :
    (listJson codecs all p k length writes).length = length.toNat := by
  rw [listJson, SQLiteListWriter.length_writeAll, List.length_replicate]

/-! ## Conditions -/

section
variable {platform : Platform} {tables : List SQLiteCollection} {tableIndex : UInt16}
  {table : SQLiteCollection} {column : SQLiteProperty} {row : String → Value}

/-- A condition on a list is a condition on the JSON in its column. -/
theorem contributes_list (negated : Bool) {condition : FilterCondition} {m : Bool}
    (hTable : tables[tableIndex.toNat]? = some table)
    (hColumn : table.getProperty condition.propertyIndex = some column)
    (isList : column.dataType.isList = true)
    (value : (JsonCondition.new platform.toLowercase [] condition.conditionType true
      condition.values condition.caseSensitive).matchesJson platform.toLowercase
        (platform.columnJson (row column.name)) = m) :
    ∃ text, filterSqlPath platform.toLowercase tables tableIndex [] (.condition condition) =
        some text ∧ Contributes (platform.env row) negated text (.whole m) := by
  have name : table.getPropertyName condition.propertyIndex = column.name := by
    rw [SQLiteCollection.getPropertyName, hColumn]
  subst value
  refine ⟨_, ?_, contributes_filterJson negated column.name _⟩
  simp [filterSqlPath, hTable, conditionSqlPath, hColumn, isList, name]

/-- A text that spells a condition is true where the condition holds. -/
theorem Translates.run {env : Env QueryParam} {tight m : Bool} {text : Text QueryParam}
    (h : Translates env false tight text m) :
    ∃ v, Sql.run env text = some v ∧ (v == some true) = m := by
  obtain ⟨v, rfl, spells, -⟩ := h
  refine ⟨v, spells.run, ?_⟩
  rcases v with _ | _ | _ <;> rfl

theorem matchesJson_isNull (toLowercase : List Char → List Char) (json : Json) :
    (JsonCondition.new toLowercase [] .isNull true [] false).matchesJson toLowercase json =
      json.isNull := rfl

/-- Every element is at least null. -/
theorem matchesJson_isNotEmpty (toLowercase : List Char → List Char) (json : Json) :
    (JsonCondition.new toLowercase [] .greaterOrEqual true [none] true).matchesJson toLowercase
      json = json.length?.any (0 < ·) := by
  cases json with
  | array values => cases values <;> rfl
  | _ => rfl

/-- The `WHERE` expressions of `isNull`, `isNotEmpty` and `isEmpty` are conditions on the JSON in the
column. -/
theorem run_emptiness {index : UInt16} (hTable : tables[tableIndex.toNat]? = some table)
    (hColumn : table.getProperty index = some column) (isList : column.dataType.isList = true) :
    let json := platform.columnJson (row column.name)
    let runs (filter : Filter) (m : Bool) : Prop := ∃ text v,
      filterSql platform.toLowercase tables tableIndex filter = some text ∧
        Sql.run (platform.env row) text = some v ∧ (v == some true) = m
    let isNull : Filter := .condition (Dart.isNullCondition index)
    let isNotEmpty : Filter := .condition (Dart.isNotEmptyCondition index)
    runs isNull json.isNull ∧ runs isNotEmpty (json.length?.any (0 < ·)) ∧
      runs (.not (.or [isNull, isNotEmpty])) !(json.isNull || json.length?.any (0 < ·)) := by
  intro json runs isNull isNotEmpty
  have translated (negated : Bool) :
      (∃ text, filterSqlPath platform.toLowercase tables tableIndex [] isNull = some text ∧
        Contributes (platform.env row) negated text (.whole json.isNull)) ∧
      ∃ text, filterSqlPath platform.toLowercase tables tableIndex [] isNotEmpty = some text ∧
        Contributes (platform.env row) negated text (.whole (json.length?.any (0 < ·))) := by
    constructor
    · exact contributes_list negated hTable hColumn isList
        (matchesJson_isNull platform.toLowercase json)
    · exact contributes_list negated hTable hColumn isList
        (matchesJson_isNotEmpty platform.toLowercase json)
  refine ⟨?_, ?_, ?_⟩
  · obtain ⟨text, found, contributes⟩ := (translated false).1
    obtain ⟨v, ran, value⟩ := contributes.translates.run
    exact ⟨text, v, found, ran, value⟩
  · obtain ⟨text, found, contributes⟩ := (translated false).2
    obtain ⟨v, ran, value⟩ := contributes.translates.run
    exact ⟨text, v, found, ran, value⟩
  · obtain ⟨⟨text, found, contributes⟩, text', found', contributes'⟩ := translated true
    have group : Translates (platform.env row) true false
        (word .lparen ++ joinSql .or [text, text'] ++ word .rparen)
        (json.isNull || json.length?.any (0 < ·)) :=
      (translates_or (.cons contributes (.cons contributes' .nil)) (List.cons_ne_nil _ _)).congr
        (by simp [Part.value])
    have negation : Translates (platform.env row) false false
        (word .not ++ (word .lparen ++ (word .lparen ++ joinSql .or [text, text'] ++ word .rparen) ++
          word .rparen)) (!(json.isNull || json.length?.any (0 < ·))) := group.not
    obtain ⟨v, ran, value⟩ := negation.run
    refine ⟨_, v, ?_, ran, value⟩
    simp [filterSql, filterSqlPath, filtersSqlPath, hTable, found, found']

end

end Sqlite

end IsarPlus
