import IsarPlus.Sqlite.Proofs.FilterNames
import IsarPlus.Sqlite.QueryBuilder

/-!
# Built queries

The clauses that `build_query` writes, and what is left of them when they are parsed. It writes
`ORDER BY` in front of `GROUP BY`, which is a syntax error.
-/

namespace IsarPlus.Sqlite
open Scalar Sql

variable {toLowercase : List Char → List Char} {all : List SQLiteCollection}

/-- The clauses of a query, with the text of its condition. -/
def clausesOf (condition : Option (Text QueryParam)) (b : SQLiteQueryBuilder) :
    List (Clause (Text QueryParam)) :=
  condition.toList.map .where_ ++
    (if b.sort.isEmpty then [] else [.orderBy (b.sort.map SQLiteQueryBuilder.sortSql)]) ++
    (if b.distinct.isEmpty then [] else [.groupBy (b.distinct.map SQLiteQueryBuilder.distinctSql)])

theorem clausesOf_buildQuery {b : SQLiteQueryBuilder} {sql : List (Clause (Text QueryParam))}
    (built : b.buildQuery toLowercase all = some sql) :
    ∃ condition, sql = clausesOf condition b ∧
      (b.filter.mapM fun filter => filterSql toLowercase all b.collectionIndex filter) =
        some condition := by
  obtain ⟨collectionIndex, filter, sort, distinct⟩ := b
  unfold SQLiteQueryBuilder.buildQuery at built
  cases filter with
  | none =>
    cases built
    refine ⟨none, ?_, rfl⟩
    unfold clausesOf
    cases sort <;> cases distinct <;> rfl
  | some filter =>
    obtain ⟨text, translated, eq⟩ := Option.bind_eq_some_iff.mp built
    cases eq
    refine ⟨some text, ?_, ?_⟩
    · unfold clausesOf
      cases sort <;> cases distinct <;> rfl
    · show (filterSql toLowercase all collectionIndex filter).map some = _
      rw [translated]
      rfl

/-- The clauses can be parsed unless the query is both sorted and distinct. -/
theorem parse_clausesOf (condition : Option (Text QueryParam)) (b : SQLiteQueryBuilder) :
    Tail.parse (clausesOf condition b) =
      if b.sort = [] ∨ b.distinct = [] then
        some { condition, groupBy := b.distinct.map SQLiteQueryBuilder.distinctSql
               orderBy := b.sort.map SQLiteQueryBuilder.sortSql, limit := none }
      else none := by
  obtain ⟨collectionIndex, filter, sort, distinct⟩ := b
  cases condition <;> cases sort <;> cases distinct <;> rfl

/-- The condition of a query, as SQLite parses it. -/
def SQLiteQueryBuilder.condition (toLowercase : List Char → List Char)
    (all : List SQLiteCollection) (b : SQLiteQueryBuilder) :
    Option (Option (Expr QueryParam)) := do
  let text ← b.filter.mapM fun filter => filterSql toLowercase all b.collectionIndex filter
  text.mapM Sql.parse

/-- What is parsed of a built query: nothing if it is both sorted and distinct. -/
theorem parseTail_build {b : SQLiteQueryBuilder} {q : BuiltQuery}
    (built : b.build toLowercase all = some q) :
    parseTail q.sql = (b.condition toLowercase all).bind fun condition =>
      if b.sort = [] ∨ b.distinct = [] then
        some { condition, groupBy := b.distinct.map SQLiteQueryBuilder.distinctSql
               orderBy := b.sort.map SQLiteQueryBuilder.sortSql, limit := none }
      else none := by
  obtain ⟨sql, written, rfl⟩ := Option.map_eq_some_iff.mp built
  obtain ⟨condition, rfl, translated⟩ := clausesOf_buildQuery written
  unfold parseTail SQLiteQueryBuilder.condition
  rw [parse_clausesOf, translated]
  by_cases single : b.sort = [] ∨ b.distinct = []
  · simp only [if_pos single]
    cases condition with
    | none => rfl
    | some where_ => cases parsed : Sql.parse where_ <;> simp [parsed]
  · simp only [if_neg single]
    cases condition with
    | none => rfl
    | some where_ => cases parsed : Sql.parse where_ <;> simp [parsed]

theorem parsed_of_build {b : SQLiteQueryBuilder} {q : BuiltQuery} {tail : Tail (Expr QueryParam)}
    (built : b.build toLowercase all = some q) (parsed : parseTail q.sql = some tail) :
    (b.sort = [] ∨ b.distinct = []) ∧
      tail.groupBy = b.distinct.map SQLiteQueryBuilder.distinctSql ∧
      tail.orderBy = b.sort.map SQLiteQueryBuilder.sortSql := by
  rw [parseTail_build built] at parsed
  obtain ⟨condition, -, parsed⟩ := Option.bind_eq_some_iff.mp parsed
  by_cases single : b.sort = [] ∨ b.distinct = []
  · rw [if_pos single] at parsed
    cases parsed
    exact ⟨single, rfl, rfl⟩
  · rw [if_neg single] at parsed
    cases parsed

/-! ## Names -/

/-- The statement of a query names columns of its collection, and those that it is sorted or
distinct by. -/
theorem plain_cursorSql {b : SQLiteQueryBuilder} {q : BuiltQuery} {c : SQLiteCollection}
    (built : b.build toLowercase all = some q)
    (collection : all[b.collectionIndex.toNat]? = some c) (names : c.PlainNames)
    (sort : ∀ key ∈ b.sort, Plain key.1) (distinct : ∀ key ∈ b.distinct, Plain key.1) :
    ∀ name ∈ (q.cursorSql c none none).names, Plain name := by
  obtain ⟨sql, written, rfl⟩ := Option.map_eq_some_iff.mp built
  obtain ⟨condition, rfl, translated⟩ := clausesOf_buildQuery written
  have columns : ∀ name ∈ selectPropertiesSql c, Plain name :=
    List.forall_mem_cons.mpr ⟨plain_rowid, List.forall_mem_map.mpr names.properties⟩
  have where_ : ∀ text ∈ condition, ∀ name ∈ text.names, Plain name := by
    intro text mem
    cases filtered : b.filter with
    | none =>
      rw [filtered] at translated
      cases translated
      cases mem
    | some filter =>
      rw [filtered] at translated
      have spelled : (filterSql toLowercase all b.collectionIndex filter).map some =
        some condition := translated
      obtain ⟨text', written', eq⟩ := Option.map_eq_some_iff.mp spelled
      cases eq
      cases mem
      exact plain_filterSql collection names written'
  have clauses : ∀ clause ∈ clausesOf condition b, ∀ name ∈ clause.names, Plain name := by
    unfold clausesOf
    rw [List.forall_mem_append, List.forall_mem_append, List.forall_mem_map]
    refine ⟨⟨fun text mem => where_ text (Option.mem_toList.mp mem), ?_⟩, ?_⟩
    · split
      · exact nofun
      · exact List.forall_mem_singleton.mpr
          (List.forall_mem_map.mpr (List.forall_mem_map.mpr sort))
    · split
      · exact nofun
      · exact List.forall_mem_singleton.mpr
          (List.forall_mem_map.mpr (List.forall_mem_map.mpr distinct))
  refine List.forall_mem_append.mpr ⟨columns, List.forall_mem_cons.mpr ⟨names.name, ?_⟩⟩
  intro name mem
  obtain ⟨clause, own, mem⟩ := List.mem_flatMap.mp mem
  rw [BuiltQuery.cursorSql, offsetLimitSql, List.append_nil] at own
  exact clauses clause own name mem

theorem readTail_cursorSql {misread : Select (Text QueryParam) → Option (Tail (Expr QueryParam))}
    {q : BuiltQuery} {c : SQLiteCollection}
    (plain : ∀ name ∈ (q.cursorSql c none none).names, Plain name) :
    readTail misread (q.cursorSql c none none) = parseTail q.sql :=
  (if_pos plain).trans (congrArg parseTail (List.append_nil q.sql))

/-- The statement of an aggregation names columns of the table. -/
theorem plain_aggregateSql {q : BuiltQuery} {c : SQLiteCollection}
    (plain : ∀ name ∈ (q.cursorSql c none none).names, Plain name)
    (aggregation : Native.Aggregation) (propertyIndex : Option UInt16) :
    ∀ name ∈ (q.aggregateSql c aggregation propertyIndex).names, Plain name := by
  obtain ⟨columns, rest⟩ := List.forall_mem_append.mp plain
  obtain ⟨id, properties⟩ := List.forall_mem_cons.mp columns
  obtain ⟨table, clauses⟩ := List.forall_mem_cons.mp rest
  have names : c.PlainNames := ⟨table, List.forall_mem_map.mp properties⟩
  rw [BuiltQuery.cursorSql, offsetLimitSql, List.append_nil] at clauses
  refine List.forall_mem_append.mpr ⟨?_, List.forall_mem_cons.mpr ⟨table, clauses⟩⟩
  have property := names.getPropertyName (propertyIndex.getD 0)
  cases aggregation with
  | count => exact nofun
  | isEmpty => exact List.forall_mem_singleton.mpr id
  | min | max | sum | average => exact List.forall_mem_singleton.mpr property

theorem readTail_aggregateSql
    {misread : Select (Text QueryParam) → Option (Tail (Expr QueryParam))} {q : BuiltQuery}
    {c : SQLiteCollection} (plain : ∀ name ∈ (q.cursorSql c none none).names, Plain name)
    (aggregation : Native.Aggregation) (propertyIndex : Option UInt16) :
    readTail misread (q.aggregateSql c aggregation propertyIndex) = parseTail q.sql :=
  if_pos (plain_aggregateSql plain aggregation propertyIndex)

end IsarPlus.Sqlite
