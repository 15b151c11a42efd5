import IsarPlus.Lib.SortKeys
import IsarPlus.Sqlite.Proofs.BuiltQueries

/-!
# Sorted and distinct queries

What a sorted or a distinct query is asked for, and what its statement returns: `build_query` takes
`NOCASE` for a key that is case sensitive, and `BINARY` for one that is not. Besides, `NOCASE` reads
a text up to the first `U+0000` only.
-/

namespace IsarPlus.Sqlite
open Scalar Sql SortKeys
open Native (SortOrder)

/-! ## Requests -/

/-- What a key asks to compare of a value: a text is folded where its case does not matter. -/
def requestedKey (caseSensitive : Bool) : Value → Nat ×ₗ Int ×ₗ List Char ×ₗ List Nat
  | .text s => (Value.text (if caseSensitive then s else noCase s)).sortKey false
  | value => value.sortKey false

/-- What a key asks to compare of a row. -/
def requestedValue (key : String × Bool) (row : Int64 × Row) : Nat ×ₗ Int ×ₗ List Char ×ₗ List Nat :=
  requestedKey key.2 (rowColumn row key.1)

namespace SQLiteQueryBuilder

variable (b : SQLiteQueryBuilder)

/-- The order of rows that a query asks for. -/
def requestedOrder : Int64 × Row → Int64 × Row → Ordering :=
  orderBy (fun sort => requestedValue (sort.1, sort.2.2)) (fun sort => sort.2.1 = .desc) b.sort

/-- The rows that a query asks for only one of. -/
def requestedSame (r r' : Int64 × Row) : Prop :=
  ∀ key ∈ b.distinct, requestedValue key r = requestedValue key r'

/-- The order and the groups that its statement spells. -/
def spelledOrder : Int64 × Row → Int64 × Row → Ordering :=
  rowOrder rowColumn (b.sort.map sortSql)

def spelledSame : Int64 × Row → Int64 × Row → Prop :=
  sameGroup rowColumn (b.distinct.map distinctSql)

/-- The rows are what the query asks for, in the order that it asks for. -/
def AsRequested (kept returned : TableRows Row) : Prop :=
  Selects b.requestedSame (!b.distinct.isEmpty) b.requestedOrder kept returned

/-- The results differ in rows only that are equal in the order that is asked for, or that are in one
group. -/
def SameUpToTies (returned returned' : TableRows Row) : Prop :=
  if b.distinct.isEmpty then
    List.Forall₂ (fun r r' => b.requestedOrder r r' = .eq) returned returned'
  else (∀ r ∈ returned, ∃ r' ∈ returned', b.requestedSame r r') ∧
    ∀ r' ∈ returned', ∃ r ∈ returned, b.requestedSame r' r

/-- The collations make no difference to the rows. -/
def Indifferent (kept : TableRows Row) : Prop :=
  ∀ r ∈ kept, ∀ r' ∈ kept, (b.requestedOrder r r' = .gt → b.spelledOrder r r' = .gt) ∧
    (b.requestedSame r r' ↔ b.spelledSame r r')

end SQLiteQueryBuilder

/-- The rows that meet a condition. -/
def rowsWhere (platform : Platform) (condition : Option (Expr QueryParam)) (rows : TableRows Row) :
    TableRows Row :=
  keptRows platform { condition, groupBy := [], orderBy := [], limit := none } rows

/-- The statement is well formed, and its cursor returns what the query asks for. -/
def ReturnsAsRequested (platform : Platform)
    (misread : Select (Text QueryParam) → Option (Tail (Expr QueryParam))) (b : SQLiteQueryBuilder)
    (q : BuiltQuery) (table : SQLiteCollection) (rows kept : TableRows Row) : Prop :=
  ∃ tail, readTail misread (q.cursorSql table none none) = some tail ∧
    ∀ returned, CursorReturns platform tail rows returned → b.AsRequested kept returned

/-! ## Statements -/

section
variable {b : SQLiteQueryBuilder}

theorem refl_requestedOrder : Std.ReflCmp b.requestedOrder :=
  have : Std.TransCmp b.requestedOrder := transCmp_orderBy _
  inferInstance

theorem equivalence_requestedSame : Equivalence b.requestedSame where
  refl _ _ _ := rfl
  symm h key mem := (h key mem).symm
  trans h h' key mem := (h key mem).trans (h' key mem)

theorem equivalence_spelledSame : Equivalence b.spelledSame := equivalence_sameGroup rowColumn _

theorem requestedKey_of_folded {v : Value} (folded : v.Folded) (caseSensitive : Bool) :
    requestedKey caseSensitive v = v.sortKey false := by
  cases v with
  | text s => rw [requestedKey, (folded s rfl).1, ite_self]
  | _ => rfl

/-- The swapped collations make no difference to rows of folded values. -/
theorem indifferent_of_folded {kept : TableRows Row}
    (folded : ∀ r ∈ kept, ∀ column, (rowColumn r column).Folded) : b.Indifferent kept := by
  intro r mem r' mem'
  have keys {v w : Value} (foldedV : v.Folded) (foldedW : w.Folded) (caseSensitive nocase : Bool) :
      cmp (requestedKey caseSensitive v) (requestedKey caseSensitive w) = v.order nocase w := by
    rw [requestedKey_of_folded foldedV, requestedKey_of_folded foldedW,
      order_of_folded foldedV foldedW]
    rfl
  have order (column : String) (caseSensitive : Bool) :
      cmp (requestedValue (column, caseSensitive) r) (requestedValue (column, caseSensitive) r') =
        (SQLiteQueryBuilder.keySql column caseSensitive).order rowColumn r r' :=
    keys (folded r mem column) (folded r' mem' column) _ _
  have order' (column : String) (caseSensitive : Bool) :
      cmp (requestedValue (column, caseSensitive) r') (requestedValue (column, caseSensitive) r) =
        (SQLiteQueryBuilder.keySql column caseSensitive).order rowColumn r' r :=
    keys (folded r' mem' column) (folded r mem column) _ _
  constructor
  · have same : b.requestedOrder r r' = b.spelledOrder r r' := by
      unfold SQLiteQueryBuilder.requestedOrder SQLiteQueryBuilder.spelledOrder
      induction b.sort with
      | nil => rfl
      | cons sort sorts ih =>
        rw [orderBy_cons, ih, List.map_cons, rowOrder]
        congr 1
        obtain ⟨column, direction, caseSensitive⟩ := sort
        cases direction
        · exact order column caseSensitive
        · exact order' column caseSensitive
    rw [same]
    exact id
  · unfold SQLiteQueryBuilder.requestedSame SQLiteQueryBuilder.spelledSame sameGroup
    rw [List.forall_mem_map]
    refine forall₂_congr fun key _ => ?_
    rw [← cmp_eq_eq_iff, order]
    exact Iff.rfl

/-- A request has one result, up to ties. -/
theorem SQLiteQueryBuilder.AsRequested.sameUpToTies {kept returned returned' : TableRows Row}
    (h : b.AsRequested kept returned) (h' : b.AsRequested kept returned') :
    b.SameUpToTies returned returned' := by
  have trans : Std.TransCmp b.requestedOrder := transCmp_orderBy _
  obtain ⟨rows, sorted⟩ := h
  obtain ⟨rows', sorted'⟩ := h'
  unfold SameUpToTies
  cases grouped : b.distinct.isEmpty with
  | true =>
    rw [grouped] at rows rows'
    exact forall₂_of_sorted (rows.trans rows'.symm) sorted sorted'
  | false =>
    rw [grouped] at rows rows'
    exact ⟨fun r mem => rows'.all r (rows.sub r mem), fun r mem => rows.all r (rows'.sub r mem)⟩

/-- A sorted query without distinct keys. -/
theorem asRequested_iff_of_sorted (plain : b.distinct = []) (kept : TableRows Row) :
    (∀ returned, Selects b.spelledSame (!b.distinct.isEmpty) b.spelledOrder kept returned →
        b.AsRequested kept returned) ↔ b.Indifferent kept := by
  have trans : Std.TransCmp b.spelledOrder := transCmp_rowOrder rowColumn _
  have refl := @refl_requestedOrder b
  have ungrouped : (!b.distinct.isEmpty) = false := by
    rw [plain]
    rfl
  have all (r r' : Int64 × Row) : b.requestedSame r r' ↔ b.spelledSame r r' := by
    unfold SQLiteQueryBuilder.requestedSame SQLiteQueryBuilder.spelledSame
    rw [plain]
    exact iff_of_true nofun nofun
  have pairs : b.Indifferent kept ↔ ∀ r ∈ kept, ∀ r' ∈ kept,
      b.requestedOrder r r' = .gt → b.spelledOrder r r' = .gt := by
    constructor
    · intro h r mem r' mem'
      exact (h r mem r' mem').1
    · intro h r mem r' mem'
      exact ⟨h r mem r' mem', all r r'⟩
  rw [pairs, ← sorted_iff, ungrouped]
  constructor
  · intro h returned perm sorted
    exact (h returned ⟨perm, sorted⟩).sorted
  · intro h returned answers
    refine ⟨?_, h returned answers.rows answers.sorted⟩
    rw [ungrouped]
    exact answers.rows

/-- A distinct query without an order. -/
theorem asRequested_iff_of_distinct (plain : b.sort = []) (grouped : b.distinct ≠ [])
    (kept : TableRows Row) :
    (∀ returned, Selects b.spelledSame (!b.distinct.isEmpty) b.spelledOrder kept returned →
        b.AsRequested kept returned) ↔ b.Indifferent kept := by
  have some_ : (!b.distinct.isEmpty) = true := by
    cases eq : b.distinct with
    | nil => exact absurd eq grouped
    | cons key keys => rfl
  have none_ (r r' : Int64 × Row) : b.requestedOrder r r' = .eq := by
    unfold SQLiteQueryBuilder.requestedOrder
    rw [plain]
    rfl
  have unordered (r r' : Int64 × Row) : b.spelledOrder r r' = .eq := by
    unfold SQLiteQueryBuilder.spelledOrder
    rw [plain]
    rfl
  have pairs : b.Indifferent kept ↔ ∀ r ∈ kept, ∀ r' ∈ kept,
      b.requestedSame r r' ↔ b.spelledSame r r' := by
    constructor
    · intro h r mem r' mem'
      exact (h r mem r' mem').2
    · intro h r mem r' mem'
      refine ⟨fun greater => ?_, h r mem r' mem'⟩
      rw [none_] at greater
      cases greater
  have ordered (returned : TableRows Row) :
      (returned.Pairwise fun r r' => (b.requestedOrder r r').isLE) ∧
        returned.Pairwise fun r r' => (b.spelledOrder r r').isLE := by
    constructor <;> refine List.pairwise_of_forall fun r r' => ?_
    · rw [none_]
      rfl
    · rw [unordered]
      rfl
  rw [pairs, ← onePer_iff equivalence_spelledSame equivalence_requestedSame, some_]
  constructor
  · intro h returned one
    have rows := (h returned ⟨one, (ordered returned).2⟩).rows
    rwa [some_, if_pos rfl] at rows
  · intro h returned answers
    refine ⟨?_, (ordered returned).1⟩
    rw [some_, if_pos rfl]
    exact h returned answers.rows

/-- The statement of a query returns what the query asks for just when the query is not sorted and
distinct at once, and the collations make no difference to the rows. -/
theorem returnsAsRequested_iff {toLowercase : List Char → List Char} {all : List SQLiteCollection}
    {platform : Platform} {misread : Select (Text QueryParam) → Option (Tail (Expr QueryParam))}
    {q : BuiltQuery} {table : SQLiteCollection} {condition : Option (Expr QueryParam)}
    (built : b.build toLowercase all = some q)
    (plain : ∀ name ∈ (q.cursorSql table none none).names, Plain name)
    (filtered : b.condition toLowercase all = some condition) (rows : TableRows Row) :
    ReturnsAsRequested platform misread b q table rows (rowsWhere platform condition rows) ↔
      (b.sort = [] ∨ b.distinct = []) ∧ b.Indifferent (rowsWhere platform condition rows) := by
  unfold ReturnsAsRequested
  rw [readTail_cursorSql plain, parseTail_build built, filtered, Option.bind_some]
  by_cases single : b.sort = [] ∨ b.distinct = []
  · have answers (returned : TableRows Row) : CursorReturns platform
        { condition, groupBy := b.distinct.map SQLiteQueryBuilder.distinctSql
          orderBy := b.sort.map SQLiteQueryBuilder.sortSql, limit := none } rows returned ↔
        Selects b.spelledSame (!b.distinct.isEmpty) b.spelledOrder
          (rowsWhere platform condition rows) returned := by
      unfold CursorReturns
      rw [List.isEmpty_map]
      exact Iff.rfl
    rw [if_pos single, and_iff_right single]
    have exact_ : (∀ returned, Selects b.spelledSame (!b.distinct.isEmpty) b.spelledOrder
          (rowsWhere platform condition rows) returned →
        b.AsRequested (rowsWhere platform condition rows) returned) ↔
          b.Indifferent (rowsWhere platform condition rows) := by
      by_cases plain : b.distinct = []
      · exact asRequested_iff_of_sorted plain _
      · exact asRequested_iff_of_distinct (single.resolve_right plain) plain _
    rw [← exact_]
    constructor
    · intro ⟨tail, eq, returns⟩ returned result
      cases eq
      exact returns returned ((answers returned).mpr result)
    · intro returns
      exact ⟨_, rfl, fun returned result => returns returned ((answers returned).mp result)⟩
  · rw [if_neg single]
    exact iff_of_false (fun ⟨_, eq, _⟩ => nomatch eq) fun h => single h.1

end

end IsarPlus.Sqlite
