import IsarPlus.Native.Proofs.DistinctQueries
import IsarPlus.Sqlite.Proofs.FilterTranslation
import IsarPlus.Sqlite.Proofs.SortedDistinct

/-!
# Sorted and distinct queries in both engines

When the two engines answer a query that is sorted or distinct as it is asked for: SQLite with the
statement that `build_query` writes, and the native engine with its sort and its hashes, whatever
the unstable sort makes of equal objects.
-/

namespace IsarPlus
open ByteBuffer Scalar Native Sqlite Sql SortKeys Firsts

/-! ## Requests -/

/-- What a query builder is asked for: a filter, the properties to sort by, and those by which the
results are distinct, with whether the case of strings matters. -/
structure QueryRequest where
  filter : Option Filter
  sort : List (UInt16 × SortOrder × Bool)
  distinct : List (UInt16 × Bool)

namespace QueryRequest

/-- The calls on the builder of SQLite. -/
def sqliteBuilder (request : QueryRequest) (tables : List SQLiteCollection)
    (collectionIndex : UInt16) : Option SQLiteQueryBuilder := do
  let b := SQLiteQueryBuilder.new collectionIndex
  let b := request.filter.elim b b.setFilter
  let b ← request.sort.foldlM (fun b key => b.addSort tables key.1 key.2.1 key.2.2) b
  request.distinct.foldlM (fun b key => b.addDistinct tables key.1 key.2) b

/-- The calls on the builder of the native engine. -/
def nativeBuilder (request : QueryRequest) (c : NativeCollection) : NativeQueryBuilder :=
  let b := NativeQueryBuilder.new
  let b := request.filter.elim b b.setFilter
  let b := request.sort.foldl (fun b key => b.addSort c key.1 key.2.1 key.2.2) b
  request.distinct.foldl (fun b key => b.addDistinct c key.1 key.2) b

variable {tables : List SQLiteCollection} {collectionIndex : UInt16} {table : SQLiteCollection}

theorem foldlM_addSort (hTable : tables[collectionIndex.toNat]? = some table)
    (keys : List (UInt16 × SortOrder × Bool)) {b : SQLiteQueryBuilder}
    (own : b.collectionIndex = collectionIndex) :
    keys.foldlM (fun b key => b.addSort tables key.1 key.2.1 key.2.2) b =
      some { b with sort := b.sort ++ keys.map fun key => (table.getPropertyName key.1, key.2) } := by
  induction keys generalizing b with
  | nil => simp
  | cons key keys ih =>
    have added : b.addSort tables key.1 key.2.1 key.2.2 =
        some { b with sort := b.sort ++ [(table.getPropertyName key.1, key.2)] } := by
      rw [SQLiteQueryBuilder.addSort, own, hTable]
      rfl
    rw [List.foldlM_cons, added, Option.bind_eq_bind, Option.bind_some]
    refine (@ih { b with sort := b.sort ++ [(table.getPropertyName key.1, key.2)] } own).trans ?_
    simp

theorem foldlM_addDistinct (hTable : tables[collectionIndex.toNat]? = some table)
    (keys : List (UInt16 × Bool)) {b : SQLiteQueryBuilder}
    (own : b.collectionIndex = collectionIndex) :
    keys.foldlM (fun b key => b.addDistinct tables key.1 key.2) b =
      some { b with
        distinct := b.distinct ++ keys.map fun key => (table.getPropertyName key.1, key.2) } := by
  induction keys generalizing b with
  | nil => simp
  | cons key keys ih =>
    have added : b.addDistinct tables key.1 key.2 =
        some { b with distinct := b.distinct ++ [(table.getPropertyName key.1, key.2)] } := by
      rw [SQLiteQueryBuilder.addDistinct, own, hTable]
      rfl
    rw [List.foldlM_cons, added, Option.bind_eq_bind, Option.bind_some]
    refine (@ih { b with distinct := b.distinct ++ [(table.getPropertyName key.1, key.2)] }
      own).trans ?_
    simp

/-- Both builders have the keys in the order of the request. -/
theorem sqliteBuilder_eq (hTable : tables[collectionIndex.toNat]? = some table)
    (request : QueryRequest) : request.sqliteBuilder tables collectionIndex =
      some { collectionIndex, filter := request.filter
             sort := request.sort.map fun key => (table.getPropertyName key.1, key.2)
             distinct := request.distinct.map fun key => (table.getPropertyName key.1, key.2) } := by
  obtain ⟨filter, sort, distinct⟩ := request
  unfold sqliteBuilder
  have start : (filter.elim (SQLiteQueryBuilder.new collectionIndex)
      (SQLiteQueryBuilder.new collectionIndex).setFilter) =
        { collectionIndex, filter, sort := [], distinct := [] } := by
    cases filter <;> rfl
  dsimp only
  rw [start, foldlM_addSort hTable sort rfl, Option.bind_eq_bind, Option.bind_some,
    foldlM_addDistinct hTable distinct rfl]
  rfl

theorem foldl_addSort (c : NativeCollection) (keys : List (UInt16 × SortOrder × Bool))
    (b : NativeQueryBuilder) :
    keys.foldl (fun b key => b.addSort c key.1 key.2.1 key.2.2) b =
      { b with sort := b.sort ++ keys.map fun key => (c.getProperty key.1, key.2) } := by
  induction keys generalizing b with
  | nil => simp
  | cons key keys ih =>
    rw [List.foldl_cons, ih, NativeQueryBuilder.addSort, List.append_assoc]
    rfl

theorem foldl_addDistinct (c : NativeCollection) (keys : List (UInt16 × Bool))
    (b : NativeQueryBuilder) :
    keys.foldl (fun b key => b.addDistinct c key.1 key.2) b =
      { b with distinct := b.distinct ++ keys.filterMap fun key =>
          (c.getProperty key.1).map fun p => (p, key.2) } := by
  induction keys generalizing b with
  | nil => simp
  | cons key keys ih =>
    rw [List.foldl_cons, ih, NativeQueryBuilder.addDistinct, List.filterMap_cons]
    cases c.getProperty key.1 <;> simp

theorem nativeBuilder_eq (c : NativeCollection) (request : QueryRequest) :
    request.nativeBuilder c =
      { filter := request.filter
        sort := request.sort.map fun key => (c.getProperty key.1, key.2)
        distinct := request.distinct.filterMap fun key =>
          (c.getProperty key.1).map fun p => (p, key.2) } := by
  obtain ⟨filter, sort, distinct⟩ := request
  unfold nativeBuilder
  have start : (filter.elim NativeQueryBuilder.new NativeQueryBuilder.new.setFilter) =
      { filter, sort := [], distinct := [] } := by
    cases filter <;> rfl
  dsimp only
  rw [start, foldl_addSort, foldl_addDistinct]
  rfl

end QueryRequest

/-! ## The native engine -/

/-- The objects that the hashes leave. -/
def candidates (toLowercase : List Char → List Char) (query : NativeQuery)
    (matched : List QueryObject) : List QueryObject :=
  if query.distinct.isEmpty then matched
  else firsts (alikeValues toLowercase query.distinct) [] matched

/-- Whatever the unstable sort makes of equal objects, a query returns objects whose rows are what
the request asks for. -/
def NativeAnswers (toLowercase : List Char → List Char)
    (xxh3_64_with_seed : Bytes → UInt64 → UInt64) (query : NativeQuery) (txn : NativeTxn)
    (c : NativeCollection) (rowOf : QueryObject → Int64 × Row) (b : SQLiteQueryBuilder)
    (kept : TableRows Row) : Prop :=
  ∀ sortUnstableBy, SortsUnstably sortUnstableBy → ∃ result,
    query.results toLowercase xxh3_64_with_seed sortUnstableBy txn c false 0 0xffffffff =
      some result ∧ b.AsRequested kept (result.map rowOf)

/-- Whatever both engines make of ties, their results are the same otherwise. -/
def ResultsAgree (platform : Platform)
    (misread : Select (Text QueryParam) → Option (Tail (Expr QueryParam)))
    (xxh3_64_with_seed : Bytes → UInt64 → UInt64) (q : BuiltQuery) (table : SQLiteCollection)
    (rows : TableRows Row) (query : NativeQuery) (txn : NativeTxn) (c : NativeCollection)
    (rowOf : QueryObject → Int64 × Row) (b : SQLiteQueryBuilder) : Prop :=
  ∀ tail returned sortUnstableBy result,
    readTail misread (q.cursorSql table none none) = some tail →
    CursorReturns platform tail rows returned → SortsUnstably sortUnstableBy →
    query.results platform.toLowercase xxh3_64_with_seed sortUnstableBy txn c false 0 0xffffffff =
      some result → b.SameUpToTies returned (result.map rowOf)

/-- The comparison of the native sort and its hashes do what the request asks of the rows, and the
missing limit does not cut the result off. -/
structure NativeAgrees (toLowercase : List Char → List Char) (query : NativeQuery)
    (rowOf : QueryObject → Int64 × Row) (b : SQLiteQueryBuilder) (matched : List QueryObject) :
    Prop where
  order : ∀ a ∈ matched, ∀ o ∈ matched, b.requestedOrder (rowOf a) (rowOf o) = .gt →
    orderBy (SortKey.compared toLowercase) SortKey.descends query.sort a o = .gt
  rows : if b.distinct.isEmpty then matched.length ≤ 0xffffffff
    else OnePer b.requestedSame (matched.map rowOf)
      (((candidates toLowercase query matched).take 0xffffffff).map rowOf)

/-- Some unstable sort has this result. -/
theorem exists_sort {compare : QueryObject → QueryObject → Ordering}
    {matched result : List QueryObject} (perm : result.Perm matched)
    (sorted : result.Pairwise fun a b => (compare a b).isLE) :
    ∃ sortUnstableBy, SortsUnstably sortUnstableBy ∧
      sortUnstableBy compare matched = result := by
  classical
  let sort (compare : QueryObject → QueryObject → Ordering) (objects : List QueryObject) :=
    if objects = matched ∧ result.Pairwise fun a b => (compare a b).isLE then result
    else insertionSortBy compare objects
  refine ⟨sort, ⟨fun compare objects => ?_, fun compare objects order trans same => ?_⟩,
    if_pos ⟨rfl, sorted⟩⟩
  · simp only [sort]
    split
    · rename_i own
      rw [own.1]
      exact perm
    · exact sortsUnstably_insertionSortBy.perm compare objects
  · simp only [sort]
    split
    · rename_i own
      refine own.2.imp_of_mem fun {a b} memA memB le => ?_
      rw [own.1] at same
      rw [← same a (perm.mem_iff.mp memA) b (perm.mem_iff.mp memB)]
      exact le
    · exact sortsUnstably_insertionSortBy.sorted compare objects order trans same

section
variable {toLowercase : List Char → List Char} {xxh3_64_with_seed : Bytes → UInt64 → UInt64}
  {sortUnstableBy : (QueryObject → QueryObject → Ordering) → List QueryObject → List QueryObject}
  {query : NativeQuery} {txn : NativeTxn} {c : NativeCollection}
  {objects matched : List QueryObject} {rowOf : QueryObject → Int64 × Row}
  {b : SQLiteQueryBuilder}

theorem results_eq (stored : txn.objects c = some objects)
    (filtered : query.filter.matching toLowercase objects = some matched)
    {sorted : List QueryObject} (sorts : (if !query.sort.isEmpty && !false then
      sortObjects toLowercase sortUnstableBy query.sort matched else pure matched) = some sorted)
    {result : List QueryObject} (distinct : (if !query.distinct.isEmpty then
      distinctObjects toLowercase xxh3_64_with_seed query.distinct [] sorted else pure sorted) =
        some result) :
    query.results toLowercase xxh3_64_with_seed sortUnstableBy txn c false 0 0xffffffff =
      some (result.take 0xffffffff) := by
  have next {cond : Bool} {x y : Option (List QueryObject)} {z : List QueryObject}
      {f : List QueryObject → Option (List QueryObject)} (h : (if cond then x else y) = some z) :
      (if cond then x.bind f else y.bind f) = f z := by
    cases cond with
    | false => exact congrArg (Option.bind · f) h
    | true => exact congrArg (Option.bind · f) h
  unfold NativeQuery.results
  rw [stored, Option.bind_eq_bind, Option.bind_some, filtered]
  exact (next sorts).trans (next distinct)

/-- Without distinct properties, all rows are asked for. -/
theorem asRequested_take_iff (plain : b.distinct = []) {sorted : List QueryObject}
    (perm : sorted.Perm matched) :
    b.AsRequested (matched.map rowOf) ((sorted.take 0xffffffff).map rowOf) ↔
      matched.length ≤ 0xffffffff ∧
        sorted.Pairwise fun a o => (b.requestedOrder (rowOf a) (rowOf o)).isLE := by
  have ungrouped : (!b.distinct.isEmpty) = false := by
    rw [plain]
    rfl
  constructor
  · intro ⟨rows, ordered⟩
    rw [ungrouped] at rows
    have lengths := rows.length_eq
    rw [List.length_map, List.length_map, List.length_take, perm.length_eq] at lengths
    have few : matched.length ≤ 0xffffffff := by omega
    rw [List.take_of_length_le (perm.length_eq.trans_le few), List.pairwise_map] at ordered
    exact ⟨few, ordered⟩
  · intro ⟨few, ordered⟩
    rw [List.take_of_length_le (perm.length_eq.trans_le few)]
    refine ⟨?_, List.pairwise_map.mpr ordered⟩
    rw [ungrouped]
    exact perm.map rowOf

/-- A query with neither. -/
theorem nativeAnswers_iff_of_plain (stored : txn.objects c = some objects)
    (filtered : query.filter.matching toLowercase objects = some matched)
    (empty : query.sort = []) (all : query.distinct = []) (unsorted : b.sort = [])
    (plain : b.distinct = []) :
    NativeAnswers toLowercase xxh3_64_with_seed query txn c rowOf b (matched.map rowOf) ↔
      NativeAgrees toLowercase query rowOf b matched := by
  have results (sortUnstableBy : (QueryObject → QueryObject → Ordering) → List QueryObject →
      List QueryObject) :
      query.results toLowercase xxh3_64_with_seed sortUnstableBy txn c false 0 0xffffffff =
        some (matched.take 0xffffffff) := by
    refine @results_eq _ _ _ _ _ _ _ _ stored filtered matched ?_ matched ?_
    · rw [empty]
      rfl
    · rw [all]
      rfl
  have unordered (a o : QueryObject) : b.requestedOrder (rowOf a) (rowOf o) = .eq := by
    unfold SQLiteQueryBuilder.requestedOrder
    rw [unsorted]
    rfl
  constructor
  · intro answers
    obtain ⟨result, found, requested⟩ := answers _ sortsUnstably_insertionSortBy
    cases Option.some.inj (found.symm.trans (results _))
    refine ⟨fun a _ o _ greater => ?_, ?_⟩
    · rw [unordered] at greater
      cases greater
    · rw [plain]
      exact ((asRequested_take_iff plain (List.Perm.refl matched)).mp requested).1
  · intro agrees sortUnstableBy _
    have few := agrees.rows
    rw [plain] at few
    refine ⟨_, results _, (asRequested_take_iff plain (List.Perm.refl matched)).mpr ⟨few, ?_⟩⟩
    refine List.pairwise_of_forall fun a o => ?_
    rw [unordered]
    rfl

/-- A sorted query without distinct properties. -/
theorem nativeAnswers_iff_of_sorted (stored : txn.objects c = some objects)
    (filtered : query.filter.matching toLowercase objects = some matched)
    (reads : ∀ o ∈ matched, ∀ key ∈ query.sort, (SortKey.read toLowercase key o).isSome)
    (nonempty : query.sort ≠ []) (all : query.distinct = []) (plain : b.distinct = []) :
    NativeAnswers toLowercase xxh3_64_with_seed query txn c rowOf b (matched.map rowOf) ↔
      NativeAgrees toLowercase query rowOf b matched := by
  let order := orderBy (SortKey.compared toLowercase) SortKey.descends query.sort
  let compare (a o : QueryObject) := (compareObjects toLowercase a o query.sort).getD .eq
  have trans : Std.TransCmp order := transCmp_orderBy query.sort
  have reflexive : Std.ReflCmp fun a o => b.requestedOrder (rowOf a) (rowOf o) :=
    ⟨refl_requestedOrder.compare_self⟩
  have compares (a : QueryObject) (memA : a ∈ matched) (o : QueryObject) (memO : o ∈ matched) :
      compareObjects toLowercase a o query.sort = some (order a o) :=
    compareObjects_eq (reads a memA) (reads o memO)
  have sorts : (!query.sort.isEmpty && !false) = true := by
    simp [nonempty]
  have results {sortUnstableBy : (QueryObject → QueryObject → Ordering) → List QueryObject →
      List QueryObject} {sorted : List QueryObject}
      (found : sortObjects toLowercase sortUnstableBy query.sort matched = some sorted) :
      query.results toLowercase xxh3_64_with_seed sortUnstableBy txn c false 0 0xffffffff =
        some (sorted.take 0xffffffff) := by
    refine results_eq stored filtered ((if_pos sorts).trans found) ?_
    rw [all]
    rfl
  have pairs := @sorted_iff _ order (fun a o => b.requestedOrder (rowOf a) (rowOf o)) trans
    reflexive matched
  constructor
  · intro answers
    -- every list that is sorted by the comparison is what some unstable sort makes of the objects
    have each (sorted : List QueryObject) (perm : sorted.Perm matched)
        (ordered : sorted.Pairwise fun a o => (order a o).isLE) :
        matched.length ≤ 0xffffffff ∧
          sorted.Pairwise fun a o => (b.requestedOrder (rowOf a) (rowOf o)).isLE := by
      have ordered' : sorted.Pairwise fun a o => (compare a o).isLE := by
        refine ordered.imp_of_mem fun {a o} memA memO le => ?_
        simp only [compare, compares a (perm.mem_iff.mp memA) o (perm.mem_iff.mp memO)]
        exact le
      obtain ⟨sortUnstableBy, lawful, found⟩ := exists_sort perm ordered'
      have total : ∀ a ∈ matched, ∀ o ∈ matched,
          (compareObjects toLowercase a o query.sort).isSome := by
        intro a memA o memO
        rw [compares a memA o memO]
        rfl
      obtain ⟨result, returned, requested⟩ := answers sortUnstableBy lawful
      have sorted' : sortObjects toLowercase sortUnstableBy query.sort matched = some sorted := by
        rw [sortObjects, if_pos total]
        exact congrArg some found
      cases Option.some.inj (returned.symm.trans (results sorted'))
      exact (asRequested_take_iff plain perm).mp requested
    refine ⟨pairs.mp fun sorted perm ordered => (each sorted perm ordered).2, ?_⟩
    rw [plain]
    obtain ⟨sorted, -, perm, ordered⟩ := sortObjects_perm sortsUnstably_insertionSortBy trans compares
    exact (each sorted perm ordered).1
  · intro agrees sortUnstableBy lawful
    have few := agrees.rows
    rw [plain] at few
    obtain ⟨sorted, found, perm, ordered⟩ := sortObjects_perm lawful trans compares
    exact ⟨_, results found, (asRequested_take_iff plain perm).mpr
      ⟨few, pairs.mpr agrees.order sorted perm ordered⟩⟩

/-- A distinct query that is not sorted. -/
theorem nativeAnswers_iff_of_distinct (stored : txn.objects c = some objects)
    (filtered : query.filter.matching toLowercase objects = some matched)
    (reads : ∀ o ∈ matched, ∀ key ∈ query.distinct,
      ((DistinctKey.sortKey key).read toLowercase o).isSome)
    (free : CollisionFree xxh3_64_with_seed 0 (matched.flatMap fun o =>
      hashInputs xxh3_64_with_seed 0 (hashChain toLowercase query.distinct o)))
    (empty : query.sort = []) (unsorted : b.sort = []) (grouped : b.distinct ≠ []) :
    NativeAnswers toLowercase xxh3_64_with_seed query txn c rowOf b (matched.map rowOf) ↔
      NativeAgrees toLowercase query rowOf b matched := by
  have results (sortUnstableBy : (QueryObject → QueryObject → Ordering) → List QueryObject →
      List QueryObject) :
      query.results toLowercase xxh3_64_with_seed sortUnstableBy txn c false 0 0xffffffff =
        some ((candidates toLowercase query matched).take 0xffffffff) := by
    refine @results_eq _ _ _ _ _ _ _ _ stored filtered matched ?_ _ ?_
    · rw [empty]
      rfl
    · rw [distinctObjects_eq_firsts_alike reads free]
      unfold candidates
      cases query.distinct.isEmpty <;> rfl
  have some_ : b.distinct.isEmpty = false := by
    cases eq : b.distinct with
    | nil => exact absurd eq grouped
    | cons key keys => rfl
  have unordered (r r' : Int64 × Row) : b.requestedOrder r r' = .eq := by
    unfold SQLiteQueryBuilder.requestedOrder
    rw [unsorted]
    rfl
  constructor
  · intro answers
    obtain ⟨result, found, requested⟩ := answers _ sortsUnstably_insertionSortBy
    cases Option.some.inj (found.symm.trans (results _))
    refine ⟨fun a _ o _ greater => ?_, ?_⟩
    · rw [unordered] at greater
      cases greater
    · have rows := requested.rows
      rw [some_] at rows ⊢
      exact rows
  · intro agrees sortUnstableBy _
    have rows := agrees.rows
    refine ⟨_, results _, ?_, List.pairwise_of_forall fun r r' => ?_⟩
    · rw [some_] at rows ⊢
      exact rows
    · rw [unordered]
      rfl

end

/-! ## Both engines -/

def pixelTable : SQLiteCollection := ⟨"pixels", some "id", [⟨"brightness", .byte, none⟩]⟩

/-- The row of a pixel. -/
def pixelRow (o : QueryObject) : Int64 × Row :=
  (o.1, fun name => match o.2.readByte 0 with
    | some brightness =>
      if name = "brightness" then .integer (Int64.ofNat brightness.toNat) else .null
    | none => .null)

/-- All pixels, the darkest ones first. -/
def darkestFirst : QueryRequest where
  filter := none
  sort := [(1, .asc, true)]
  distinct := []

/-- What the builders make of the request. -/
def darkestSql : SQLiteQueryBuilder where
  collectionIndex := 0
  filter := none
  sort := [("brightness", .asc, true)]
  distinct := []

def darkestQuery : NativeQuery where
  filter := .stat true
  sort := [(some ⟨.byte, 0, none⟩, .asc, true)]
  distinct := []

def twoPixels : List QueryObject := [(1, ⟨[7], 1⟩), (2, ⟨[3], 1⟩)]

def wordTable : SQLiteCollection := ⟨"words", some "id", [⟨"word", .string, none⟩]⟩

/-- A row of a table of words. -/
def wordRow (id : Int64) (s : List Char) : Int64 × Row := (id, fun _ => .text s)

end IsarPlus
