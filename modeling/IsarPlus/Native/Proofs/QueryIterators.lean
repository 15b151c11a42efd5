import IsarPlus.Native.Proofs.AutoIncrement
import IsarPlus.Native.Proofs.CursorRanges
import IsarPlus.Native.Proofs.MinMax
import IsarPlus.Native.Proofs.QueryResults
import IsarPlus.Native.QueryIterator

/-!
# What the iterators of native queries yield

The iterators pull objects one by one, skip and take on their own, and end in states of their own. A
call after any number of others yields what the list of `Native.Query` has at its place.
-/

namespace IsarPlus.Native
open ByteBuffer Scalar OrderedStore Iteration

/-! ## Objects -/

theorem leNat_key (key : UInt64) : leNat (leBytes 8 key.toNat) = key.toNat := by
  have bound : key.toNat < 256 ^ 8 := key.toNat_lt
  exact leNat_leBytes_of_lt bound

/-- All objects are between the smallest and the greatest id. -/
theorem between_all_ids (objects : SortedMap UInt64 Bytes) :
    (primaryDb objects).between (toIdBytes Int64.minValue) (toIdBytes Int64.maxValue) =
      (primaryDb objects).entries := by
  apply List.filter_eq_self.mpr
  intro e mem
  obtain ⟨⟨key, bytes⟩, -, rfl⟩ := List.mem_map.mp mem
  have low : ¬ keyLt true (leBytes 8 key.toNat) (toIdBytes Int64.minValue) := by
    show ¬ leNat (leBytes 8 key.toNat) < leNat (leBytes 8 (idKey Int64.minValue).toNat)
    rw [leNat_key, leNat_key]
    exact Nat.not_lt_zero _
  have high : ¬ keyLt true (toIdBytes Int64.maxValue) (leBytes 8 key.toNat) := by
    show ¬ leNat (leBytes 8 (idKey Int64.maxValue).toNat) < leNat (leBytes 8 key.toNat)
    rw [leNat_key, leNat_key]
    have bound := key.toNat_lt
    have top : (idKey Int64.maxValue).toNat = 2 ^ 64 - 1 := by decide
    omega
  simp only [Bool.and_eq_true, Bool.not_eq_true', decide_eq_false_iff_not]
  exact ⟨low, high⟩

theorem readEntry_key (key : UInt64) (bytes : Bytes) :
    IndexIterator.readEntry (leBytes 8 key.toNat, bytes) =
      (IsarDeserializer.fromBytes bytes).map fun object => (idOfKey key, object) := by
  have id : toId (leBytes 8 key.toNat) = some (idOfKey key) := by
    have read := toId_toIdBytes (idOfKey key)
    rw [toIdBytes, idKey_idOfKey] at read
    exact read
  rw [IndexIterator.readEntry, id]
  cases IsarDeserializer.fromBytes bytes <;> rfl

/-- The entries of the database read as the objects of the collection. -/
theorem objects_eq_mapM {txn : NativeTxn} {c : NativeCollection} {db : Db}
    (opened : c.db = some db) :
    txn.objects c = (primaryDb (txn.primary db)).entries.mapM IndexIterator.readEntry := by
  have read : (fun e : UInt64 × Bytes =>
      (IsarDeserializer.fromBytes e.2).map fun object => (idOfKey e.1, object)) =
      IndexIterator.readEntry ∘ fun e => (leBytes 8 e.1.toNat, e.2) := by
    funext e
    exact (readEntry_key e.1 e.2).symm
  rw [NativeTxn.objects, opened]
  show ((txn.primary db).entries.mapM fun e =>
    (IsarDeserializer.fromBytes e.2).map fun object => (idOfKey e.1, object)) =
    ((txn.primary db).entries.map _).mapM IndexIterator.readEntry
  rw [List.mapM_map, read]

variable {σ : Type} {libs : QueryLibraries σ} {txn : NativeTxn} {c : NativeCollection}

/-! ## Indexes -/

namespace IndexIterator

/-- The iterator is on its last index and holds these objects. -/
def Holds (libs : QueryLibraries σ) (it : IndexIterator σ) (objects : List QueryObject) : Prop :=
  it.indexes = [] ∧ ((∃ iterator entries, it.iterator = some iterator ∧
    Yields (CursorIterator.nextEntry libs.opGet) iterator entries ∧
    entries.mapM readEntry = some objects) ∨ it.iterator = none ∧ objects = [])

theorem step {it : IndexIterator σ} {objects : List QueryObject} (holds : Holds libs it objects) :
    ∃ it', next libs c it = some (objects.head?, it') ∧ Holds libs it' objects.tail := by
  obtain ⟨last, held⟩ := holds
  rcases held with ⟨iterator, entries, current, yields, reads⟩ | ⟨ended, none'⟩
  · obtain ⟨iterator', eq, rest⟩ := yields.uncons
    cases entries with
    | nil =>
      cases reads
      refine ⟨{ iterator := none, indexes := [] }, ?_, rfl, Or.inr ⟨rfl, rfl⟩⟩
      rw [next, current, last]
      show nextFrom libs c iterator [] = _
      rw [nextFrom, eq]
      rfl
    | cons entry entries =>
      rw [List.mapM_cons] at reads
      obtain ⟨object, read, reads⟩ := Option.bind_eq_some_iff.mp reads
      obtain ⟨others, later, eq'⟩ := Option.bind_eq_some_iff.mp reads
      cases eq'
      refine ⟨{ iterator := some iterator', indexes := [] }, ?_, rfl,
        Or.inl ⟨iterator', entries, rfl, rest, later⟩⟩
      rw [next, current, last]
      show nextFrom libs c iterator [] = _
      rw [nextFrom, eq]
      show (readEntry entry).map _ = _
      rw [read]
      rfl
  · subst none'
    refine ⟨it, ?_, last, Or.inr ⟨ended, rfl⟩⟩
    rw [next, ended]
    rfl

/-- The iterator of a query yields all objects of the collection. -/
theorem yields_objects (lawful : libs.Lawful txn c) {objects : List QueryObject}
    (stored : txn.objects c = some objects) (query : NativeQuery) :
    ∃ it, new libs c query.indexes = some it ∧ Yields (next libs c) it objects := by
  have start {it : IndexIterator σ} (holds : Holds libs it objects) :
      Yields (next libs c) it objects :=
    Yields.of_invariant (fun _ _ holds => step holds) holds
  rw [NativeQuery.indexes, new]
  cases opened : c.db with
  | none =>
    rw [NativeTxn.objects, opened] at stored
    cases stored
    refine ⟨{ iterator := none, indexes := [] }, ?_, start ⟨rfl, Or.inr ⟨rfl, rfl⟩⟩⟩
    rw [nextIterator, opened]
    rfl
  | some db =>
    obtain ⟨At, lawful⟩ := lawful db opened
    have validMin : (primaryDb (txn.primary db)).validKey (toIdBytes Int64.minValue) :=
      length_leBytes 8 _
    have validMax : (primaryDb (txn.primary db)).validKey (toIdBytes Int64.maxValue) :=
      length_leBytes 8 _
    obtain ⟨it, found, opened', yields, eq⟩ := @CursorIterator.yields_ascending _ libs.opGet
      (primaryDb (txn.primary db)) At lawful
      (CursorIterator.unmoved (libs.bind db) (toIdBytes Int64.minValue) (toIdBytes Int64.maxValue)
        true true false) ⟨rfl, validMin, validMax⟩ false rfl rfl
    have opens : TxnCursor.iterBetweenIds libs.opGet (libs.bind db) Int64.minValue Int64.maxValue
        false false = .ok it := by
      rw [TxnCursor.iterBetweenIds, CursorIterator.new]
      exact opened'
    have all : found = (primaryDb (txn.primary db)).entries := eq.trans (between_all_ids _)
    refine ⟨{ iterator := some it, indexes := [] }, ?_,
      start ⟨rfl, Or.inl ⟨it, found, rfl, yields, ?_⟩⟩⟩
    · rw [nextIterator, opened]
      have bound : (none : Option σ).or ((some db).map libs.bind) = some (libs.bind db) := rfl
      rw [bound]
      simp only [opens, Option.map_some]
    · rw [all, ← objects_eq_mapM opened]
      exact stored

end IndexIterator

/-! ## Stored objects -/

theorem readObjects {entries : List (UInt64 × Bytes)} {objects : List QueryObject}
    (read : (entries.mapM fun e =>
      (IsarDeserializer.fromBytes e.2).map fun object => (idOfKey e.1, object)) = some objects) :
    objects.map (fun o => idKey o.1) = entries.map Prod.fst ∧
      ∀ o, o ∈ objects ↔ ∃ bytes, (idKey o.1, bytes) ∈ entries ∧
        IsarDeserializer.fromBytes bytes = some o.2 := by
  induction entries generalizing objects with
  | nil =>
    cases read
    exact ⟨rfl, fun o => by simp⟩
  | cons e entries ih =>
    rw [List.mapM_cons] at read
    obtain ⟨first, reads, read⟩ := Option.bind_eq_some_iff.mp read
    obtain ⟨others, later, eq⟩ := Option.bind_eq_some_iff.mp read
    obtain ⟨object, parsed, same⟩ := Option.map_eq_some_iff.mp reads
    cases eq
    subst same
    obtain ⟨keys, members⟩ := ih later
    refine ⟨?_, fun o => ?_⟩
    · rw [List.map_cons, List.map_cons, keys, idKey_idOfKey]
    · rw [List.mem_cons, members]
      constructor
      · rintro (rfl | ⟨bytes, mem, parses⟩)
        · refine ⟨e.2, List.mem_cons.mpr (Or.inl ?_), parsed⟩
          rw [idKey_idOfKey]
        · exact ⟨bytes, List.mem_cons_of_mem e mem, parses⟩
      · intro ⟨bytes, mem, parses⟩
        rcases List.mem_cons.mp mem with same | later
        · left
          subst same
          have eq : object = o.2 := Option.some.inj (parsed.symm.trans parses)
          rw [eq]
          exact Prod.ext (idKey_injective (idKey_idOfKey _).symm) rfl
        · exact Or.inr ⟨bytes, later, parses⟩

/-- The objects of a collection are listed with ascending ids. -/
theorem ascending_objects {objects : List QueryObject} (stored : txn.objects c = some objects) :
    objects.Pairwise fun a b => a.1 < b.1 := by
  rw [NativeTxn.objects] at stored
  cases opened : c.db with
  | none =>
    rw [opened] at stored
    cases stored
    exact List.Pairwise.nil
  | some db =>
    rw [opened] at stored
    have keys : ((txn.primary db).entries.map Prod.fst).Pairwise (· < ·) :=
      List.pairwise_map.mpr (txn.primary db).sorted
    rw [← (readObjects stored).1] at keys
    refine (List.pairwise_map.mp keys).imp fun {a b} below => ?_
    have codeA := toNat_idKey a.1
    have codeB := toNat_idKey b.1
    have below : (idKey a.1).toNat < (idKey b.1).toNat := below
    rw [Int64.lt_iff_toInt_lt]
    omega

theorem mem_objects {objects : List QueryObject} (stored : txn.objects c = some objects)
    (o : QueryObject) : o ∈ objects ↔ txn.HasObject c o := by
  rw [NativeTxn.objects] at stored
  unfold NativeTxn.HasObject
  cases opened : c.db with
  | none =>
    rw [opened] at stored
    cases stored
    simp
  | some db =>
    rw [opened] at stored
    rw [(readObjects stored).2]
    simp only [SortedMap.mem_entries, NativeTxn.get, Option.some.injEq, exists_and_left,
      exists_eq_left']

theorem mem_matching {toLowercase : List Char → List Char} {filter : NativeFilter}
    {objects matched : List QueryObject}
    (matches' : filter.matching toLowercase objects = some matched) :
    matched.Sublist objects ∧
      ∀ o, o ∈ matched ↔ o ∈ objects ∧ filter.evaluate toLowercase o.1 o.2 = some true := by
  induction objects generalizing matched with
  | nil =>
    cases matches'
    exact ⟨List.Sublist.refl _, fun o => by simp⟩
  | cons o objects ih =>
    obtain ⟨id, object⟩ := o
    rw [NativeFilter.matching] at matches'
    obtain ⟨isMatch, evaluates, matches'⟩ := Option.bind_eq_some_iff.mp matches'
    obtain ⟨rest, later, eq⟩ := Option.bind_eq_some_iff.mp matches'
    have eq : (if isMatch then (id, object) :: rest else rest) = matched := Option.some.inj eq
    obtain ⟨sub, members⟩ := ih later
    subst eq
    cases isMatch with
    | false =>
      refine ⟨sub.cons _, fun o' => ?_⟩
      show o' ∈ rest ↔ _
      rw [members, List.mem_cons, or_and_right]
      refine (or_iff_right fun ⟨same, accepted⟩ => ?_).symm
      subst same
      rw [evaluates] at accepted
      cases accepted
    | true =>
      refine ⟨sub.cons_cons _, fun o' => ?_⟩
      show o' ∈ (id, object) :: rest ↔ _
      rw [List.mem_cons, members, List.mem_cons, or_and_right]
      refine or_congr (Iff.symm (and_iff_left_of_imp fun same => ?_)) Iff.rfl
      subst same
      exact evaluates

/-! ## Selected objects -/

namespace NativeQuery

/-- The objects in the order of the query. -/
def ordered (libs : QueryLibraries σ) (query : NativeQuery) (ignoreSort : Bool)
    (objects : List QueryObject) : Option (List QueryObject) :=
  if !query.sort.isEmpty && !ignoreSort then
    sortObjects libs.toLowercase libs.sortUnstableBy query.sort objects
  else some objects

/-- The first object for each hash. -/
def deduplicated (libs : QueryLibraries σ) (query : NativeQuery) (objects : List QueryObject) :
    Option (List QueryObject) :=
  if !query.distinct.isEmpty then
    distinctObjects libs.toLowercase libs.xxh3_64_with_seed query.distinct [] objects
  else some objects

/-- All objects that a query selects, in their order. -/
def selected (libs : QueryLibraries σ) (query : NativeQuery) (txn : NativeTxn)
    (c : NativeCollection) (ignoreSort : Bool) : Option (List QueryObject) :=
  (((txn.objects c).bind (query.filter.matching libs.toLowercase)).bind
    (query.ordered libs ignoreSort)).bind (query.deduplicated libs)

/-- The results of a query are a slice of what it selects. -/
theorem results_eq_selected (query : NativeQuery) (ignoreSort : Bool) (offset limit : UInt32) :
    query.results libs.toLowercase libs.xxh3_64_with_seed libs.sortUnstableBy txn c ignoreSort offset
        limit =
      (query.selected libs txn c ignoreSort).map fun objects =>
        (objects.drop offset.toNat).take limit.toNat := by
  have slice (objects : List QueryObject) :
      (if !query.distinct.isEmpty then
          (distinctObjects libs.toLowercase libs.xxh3_64_with_seed query.distinct [] objects).bind
            fun objects => pure ((objects.drop offset.toNat).take limit.toNat)
        else (pure objects : Option (List QueryObject)).bind
          fun objects => pure ((objects.drop offset.toNat).take limit.toNat)) =
        (query.deduplicated libs objects).map fun objects =>
          (objects.drop offset.toNat).take limit.toNat := by
    unfold deduplicated
    by_cases distinct : (!query.distinct.isEmpty) = true
    · rw [if_pos distinct, if_pos distinct]
      exact (Option.map_eq_bind ..).symm
    · rw [if_neg distinct, if_neg distinct]
      rfl
  unfold results selected
  cases txn.objects c with
  | none => rfl
  | some objects =>
    simp only [Option.bind_eq_bind, Option.bind_some]
    cases query.filter.matching libs.toLowercase objects with
    | none => rfl
    | some matched =>
      simp only [Option.bind_some]
      unfold ordered
      by_cases sorted : (!query.sort.isEmpty && !ignoreSort) = true
      · rw [if_pos sorted, if_pos sorted]
        cases sortObjects libs.toLowercase libs.sortUnstableBy query.sort matched with
        | none => rfl
        | some ordered => exact slice ordered
      · rw [if_neg sorted, if_neg sorted]
        exact slice matched

end NativeQuery

theorem matching_eq_accepted (filter : NativeFilter) (objects : List QueryObject) :
    filter.matching libs.toLowercase objects =
      Windowed.accepted (UnsortedQueryIterator.accept libs filter) () objects := by
  induction objects with
  | nil => rfl
  | cons o objects ih =>
    obtain ⟨id, object⟩ := o
    rw [NativeFilter.matching, Windowed.accepted, UnsortedQueryIterator.accept]
    cases filter.evaluate libs.toLowercase id object with
    | none => rfl
    | some isMatch =>
      rw [ih]
      cases isMatch with
      | false =>
        show ((Windowed.accepted _ () objects).bind some) = Windowed.accepted _ () objects
        exact Option.bind_fun_some _
      | true =>
        show ((Windowed.accepted _ () objects).bind fun rest => some ((id, object) :: rest)) =
          (Windowed.accepted _ () objects).map _
        exact (Option.map_eq_bind ..).symm

/-- Filtering and leaving out known hashes can be done in one pass. -/
theorem accepted_distinct (filter : NativeFilter) (distinct : List (NativeProperty × Bool))
    {objects matched chosen : List QueryObject} (hashes : List UInt64)
    (matches' : filter.matching libs.toLowercase objects = some matched)
    (distinct' : distinctObjects libs.toLowercase libs.xxh3_64_with_seed distinct hashes matched =
      some chosen) :
    Windowed.accepted (UnsortedDistinctQueryIterator.accept libs filter distinct) hashes objects =
      some chosen := by
  induction objects generalizing matched chosen hashes with
  | nil =>
    cases matches'
    exact distinct'
  | cons o objects ih =>
    obtain ⟨id, object⟩ := o
    rw [Windowed.accepted, UnsortedDistinctQueryIterator.accept]
    rw [NativeFilter.matching] at matches'
    obtain ⟨isMatch, evaluates, matches'⟩ := Option.bind_eq_some_iff.mp matches'
    obtain ⟨rest, later, eq⟩ := Option.bind_eq_some_iff.mp matches'
    rw [evaluates]
    cases isMatch with
    | false =>
      cases eq
      exact ih hashes later distinct'
    | true =>
      have eq : (id, object) :: rest = matched := Option.some.inj eq
      rw [← eq, distinctObjects] at distinct'
      obtain ⟨hash, hashed, distinct'⟩ := Option.bind_eq_some_iff.mp distinct'
      simp only [Option.bind_eq_bind, Option.bind_some, if_true, hashed]
      by_cases seen : hash ∈ hashes
      · rw [if_pos seen] at distinct'
        simp only [seen, if_true]
        exact ih hashes later distinct'
      · rw [if_neg seen] at distinct'
        obtain ⟨others, fresh, eq⟩ := Option.bind_eq_some_iff.mp distinct'
        cases eq
        simp only [seen, if_false]
        exact congrArg (Option.map ((id, object) :: ·)) (ih (hash :: hashes) later fresh)

/-- What an iterator yields is a slice of what its query selects. -/
theorem QueryIterator.yields (lawful : libs.Lawful txn c) {objects : List QueryObject}
    (stored : txn.objects c = some objects) {fuel : Nat} (enough : objects.length < fuel)
    {query : NativeQuery} {ignoreSort : Bool} {chosen : List QueryObject}
    (selects : query.selected libs txn c ignoreSort = some chosen) (offset limit : UInt32) :
    ∃ it, QueryIterator.new libs fuel query c ignoreSort offset limit = some it ∧
      Yields (QueryIterator.next libs fuel query c) it
        ((chosen.drop offset.toNat).take limit.toNat) := by
  obtain ⟨source, opened, yields⟩ := IndexIterator.yields_objects lawful stored query
  rw [NativeQuery.selected, stored, Option.bind_some] at selects
  obtain ⟨ordered, selects, distinct'⟩ := Option.bind_eq_some_iff.mp selects
  obtain ⟨matched, filtered, sorts⟩ := Option.bind_eq_some_iff.mp selects
  rw [QueryIterator.new, opened, Option.bind_eq_bind, Option.bind_some]
  unfold NativeQuery.ordered at sorts
  by_cases sorts' : (!query.sort.isEmpty && !ignoreSort) = true
  · rw [if_pos sorts'] at sorts
    rw [if_pos sorts']
    refine ⟨sorted ((chosen.drop offset.toNat).take limit.toNat), ?_,
      Yields.wrap (next libs fuel query c) sorted (fun _ => rfl) (yields_listNext _)⟩
    unfold NativeQuery.deduplicated at distinct'
    rw [sortedQueryIterator, collect_of_yields yields enough, Option.bind_eq_bind, Option.bind_some,
      filtered, Option.bind_some, sorts, Option.bind_some]
    by_cases distinct : (!query.distinct.isEmpty) = true
    · rw [if_pos distinct] at distinct' ⊢
      rw [distinct', Option.bind_some]
      rfl
    · rw [if_neg distinct] at distinct' ⊢
      rw [distinct', Option.bind_some]
      rfl
  · rw [if_neg sorts'] at sorts
    have same : matched = ordered := Option.some.inj sorts
    subst same
    rw [if_neg sorts']
    unfold NativeQuery.deduplicated at distinct'
    by_cases distinct : (!query.distinct.isEmpty) = true
    · rw [if_pos distinct] at distinct'
      rw [if_pos distinct]
      refine ⟨_, rfl, Yields.wrap (next libs fuel query c) unsortedDistinct (fun _ => rfl) ?_⟩
      exact Windowed.yields yields enough
        (accepted_distinct query.filter query.distinct [] filtered distinct')
    · rw [if_neg distinct] at distinct'
      rw [if_neg distinct]
      have same : matched = chosen := Option.some.inj distinct'
      subst same
      refine ⟨_, rfl, Yields.wrap (next libs fuel query c) unsorted (fun _ => rfl) ?_⟩
      apply Windowed.yields yields enough
      rw [← matching_eq_accepted]
      exact filtered

/-! ## Numbers of objects -/

section
variable {toLowercase : List Char → List Char} {xxh3_64_with_seed : Bytes → UInt64 → UInt64}

theorem hashed_of_distinctObjects {distinct : List (NativeProperty × Bool)}
    {objects chosen : List QueryObject} (hashes : List UInt64)
    (distinct' : distinctObjects toLowercase xxh3_64_with_seed distinct hashes objects = some chosen) :
    ∀ o ∈ objects,
      (o.2.hashProperties toLowercase xxh3_64_with_seed distinct).isSome := by
  induction objects generalizing hashes chosen with
  | nil => exact nofun
  | cons o objects ih =>
    obtain ⟨id, object⟩ := o
    rw [distinctObjects] at distinct'
    obtain ⟨hash, hashed, distinct'⟩ := Option.bind_eq_some_iff.mp distinct'
    intro o mem
    rcases List.mem_cons.mp mem with same | later
    · subst same
      rw [hashed]
      rfl
    · by_cases seen : hash ∈ hashes
      · rw [if_pos seen] at distinct'
        exact ih hashes distinct' o later
      · rw [if_neg seen] at distinct'
        obtain ⟨others, fresh, -⟩ := Option.bind_eq_some_iff.mp distinct'
        exact ih (hash :: hashes) fresh o later

/-- There is one object for each hash. -/
theorem length_distinctObjects {distinct : List (NativeProperty × Bool)} {objects : List QueryObject}
    (hashed : ∀ o ∈ objects,
      (o.2.hashProperties toLowercase xxh3_64_with_seed distinct).isSome) :
    ∃ chosen, distinctObjects toLowercase xxh3_64_with_seed distinct [] objects = some chosen ∧
      chosen.length = (objects.map fun o =>
        o.2.hashProperties toLowercase xxh3_64_with_seed distinct).dedup.length := by
  let hash (o : QueryObject) : UInt64 :=
    (o.2.hashProperties toLowercase xxh3_64_with_seed distinct).getD 0
  have eq : ∀ o ∈ objects,
      o.2.hashProperties toLowercase xxh3_64_with_seed distinct = some (hash o) := by
    intro o mem
    obtain ⟨value, eq⟩ := Option.isSome_iff_exists.mp (hashed o mem)
    show _ = some ((o.2.hashProperties toLowercase xxh3_64_with_seed distinct).getD 0)
    rw [eq]
    rfl
  obtain ⟨chosen, found, sub, -, apart, all⟩ := distinctObjects_first [] eq
  refine ⟨chosen, found, ?_⟩
  have hashes : (objects.map fun o =>
      o.2.hashProperties toLowercase xxh3_64_with_seed distinct) = objects.map (some ∘ hash) :=
    List.map_congr_left eq
  have perm : (chosen.map (some ∘ hash)).Perm (objects.map (some ∘ hash)).dedup := by
    refine (List.perm_ext_iff_of_nodup ?_ (List.nodup_dedup _)).mpr fun value => ?_
    · exact List.pairwise_map.mpr (apart.imp fun differ same => differ (Option.some.inj same))
    · rw [List.mem_dedup]
      constructor
      · intro mem
        obtain ⟨o, mem, eq⟩ := List.mem_map.mp mem
        exact List.mem_map.mpr ⟨o, sub.subset mem, eq⟩
      · intro mem
        obtain ⟨o, mem, eq⟩ := List.mem_map.mp mem
        rcases all o mem with old | ⟨r, memR, same⟩
        · exact absurd old List.not_mem_nil
        · exact List.mem_map.mpr ⟨r, memR, by rw [← eq, Function.comp, Function.comp, same]⟩
  rw [hashes, ← perm.length_eq, List.length_map]

end

/-- The number of objects that a query selects of the matching ones. -/
def NativeQuery.size (libs : QueryLibraries σ) (query : NativeQuery) (matched : List QueryObject) :
    Nat :=
  if !query.distinct.isEmpty then (matched.map fun o =>
    o.2.hashProperties libs.toLowercase libs.xxh3_64_with_seed query.distinct).dedup.length
  else matched.length

theorem ordered_perm (sorts : SortsUnstably libs.sortUnstableBy) {query : NativeQuery}
    {ignoreSort : Bool} {matched objects : List QueryObject}
    (sorted : query.ordered libs ignoreSort matched = some objects) : objects.Perm matched := by
  unfold NativeQuery.ordered at sorted
  split at sorted
  · unfold sortObjects at sorted
    split at sorted
    · rw [← Option.some.inj sorted]
      exact sorts.perm _ _
    · cases sorted
  · rw [← Option.some.inj sorted]

theorem length_deduplicated {query : NativeQuery} {objects chosen : List QueryObject}
    (distinct' : query.deduplicated libs objects = some chosen) :
    chosen.length = query.size libs objects := by
  unfold NativeQuery.deduplicated at distinct'
  unfold NativeQuery.size
  by_cases distinct : (!query.distinct.isEmpty) = true
  · rw [if_pos distinct] at distinct' ⊢
    obtain ⟨_, found, length⟩ := length_distinctObjects (hashed_of_distinctObjects [] distinct')
    rw [Option.some.inj (distinct'.symm.trans found)]
    exact length
  · rw [if_neg distinct] at distinct' ⊢
    rw [Option.some.inj distinct']

theorem size_perm {query : NativeQuery} {objects matched : List QueryObject}
    (perm : objects.Perm matched) : query.size libs objects = query.size libs matched := by
  unfold NativeQuery.size
  split
  · exact (perm.map _).dedup.length_eq
  · exact perm.length_eq

/-- Without the sort a query selects as many objects. -/
theorem selected_ignoreSort (sorts : SortsUnstably libs.sortUnstableBy) {query : NativeQuery}
    {objects matched chosen : List QueryObject} (stored : txn.objects c = some objects)
    (filtered : query.filter.matching libs.toLowercase objects = some matched)
    (selects : query.selected libs txn c false = some chosen) :
    chosen.length = query.size libs matched ∧
      ∃ unsorted, query.selected libs txn c true = some unsorted ∧
        unsorted.length = chosen.length := by
  have size {ignoreSort : Bool} {chosen : List QueryObject}
      (selects : query.selected libs txn c ignoreSort = some chosen) :
      ∃ ordered, ordered.Perm matched ∧ query.deduplicated libs ordered = some chosen ∧
        chosen.length = query.size libs matched := by
    rw [NativeQuery.selected, stored, Option.bind_some, filtered, Option.bind_some] at selects
    obtain ⟨ordered, sorted, distinct'⟩ := Option.bind_eq_some_iff.mp selects
    have perm := ordered_perm sorts sorted
    exact ⟨ordered, perm, distinct', (length_deduplicated distinct').trans (size_perm perm)⟩
  obtain ⟨ordered, perm, distinct', length⟩ := size selects
  refine ⟨length, ?_⟩
  have distinct : (query.deduplicated libs matched).isSome := by
    unfold NativeQuery.deduplicated at distinct' ⊢
    by_cases distinct : (!query.distinct.isEmpty) = true
    · rw [if_pos distinct] at distinct' ⊢
      have hashed := hashed_of_distinctObjects [] distinct'
      obtain ⟨_, found, -⟩ := length_distinctObjects fun o mem => hashed o (perm.mem_iff.mpr mem)
      rw [found]
      rfl
    · rw [if_neg distinct]
      rfl
  obtain ⟨unsorted, found⟩ := Option.isSome_iff_exists.mp distinct
  have selects' : query.selected libs txn c true = some unsorted := by
    rw [NativeQuery.selected, stored, Option.bind_some, filtered, Option.bind_some,
      NativeQuery.ordered, if_neg (by simp), Option.bind_some]
    exact found
  obtain ⟨-, -, -, length'⟩ := size selects'
  exact ⟨unsorted, selects', length'.trans length.symm⟩

/-! ## One result -/

/-- The part of a list behind the offset, up to the limit. -/
def page (offset limit : Option UInt32) (objects : List QueryObject) : List QueryObject :=
  match limit with
  | some limit => (objects.drop (offset.getD 0).toNat).take limit.toNat
  | none => objects.drop (offset.getD 0).toNat

/-- The missing limit of a cursor is of no account for short lists. -/
theorem page_eq {objects : List QueryObject} (short : objects.length ≤ 0xffffffff)
    (offset limit : Option UInt32) :
    (objects.drop (offset.getD 0).toNat).take (limit.getD 0xffffffff).toNat =
      page offset limit objects := by
  cases limit with
  | some limit => rfl
  | none =>
    apply List.take_of_length_le
    rw [List.length_drop]
    exact (Nat.sub_le _ _).trans short

theorem page_append {offset limit : UInt32} (fits : offset.toNat + limit.toNat < 2 ^ 32)
    (limit' : UInt32) (objects : List QueryObject) :
    page (some offset) (some limit) objects ++
        page (some (offset + limit)) (some limit') objects =
      (objects.drop offset.toNat).take (limit.toNat + limit'.toNat) := by
  have next : (offset + limit).toNat = offset.toNat + limit.toNat := by
    rw [UInt32.toNat_add]
    exact Nat.mod_eq_of_lt fits
  show (objects.drop offset.toNat).take limit.toNat ++
    (objects.drop (offset + limit).toNat).take limit'.toNat = _
  rw [next, List.take_add, List.drop_drop]

namespace NativeQuery

/-- The cursor of the query lists these objects. -/
def Lists (libs : QueryLibraries σ) (fuel : Nat) (query : NativeQuery) (c : NativeCollection)
    (offset limit : Option UInt32) (objects : List QueryObject) : Prop :=
  ∃ it, query.cursor libs fuel c offset limit = some it ∧
    Yields (QueryIterator.next libs fuel query c) it objects

/-- All paths of the query describe this result. -/
structure OneResult (libs : QueryLibraries σ) (fuel : Nat) (query : NativeQuery) (txn : NativeTxn)
    (c : NativeCollection) (result : List QueryObject) : Prop where
  full : query.Lists libs fuel c none none result
  objects : query.sort = [] → query.distinct = [] →
    (result.Pairwise fun a b => a.1 < b.1) ∧
      ∀ o, o ∈ result ↔
        txn.HasObject c o ∧ query.filter.evaluate libs.toLowercase o.1 o.2 = some true
  pages : ∀ offset limit, query.Lists libs fuel c offset limit (page offset limit result)
  consecutive : ∀ offset limit limit' : UInt32, offset.toNat + limit.toNat < 2 ^ 32 →
    page (some offset) (some limit) result ++ page (some (offset + limit)) (some limit') result =
      (result.drop offset.toNat).take (limit.toNat + limit'.toNat)
  ids : ∀ offset limit, query.getMatchingIds libs fuel c offset limit =
    some ((page offset limit result).map Prod.fst)
  count : query.count libs fuel c = some (.integer (Int64.ofNat result.length))
  isEmpty : query.isEmpty libs fuel c = some (.bool result.isEmpty)

/-- Results that the missing limit cuts off are not one result. -/
theorem length_le_of_oneResult (lawful : libs.Lawful txn c) {objects : List QueryObject}
    (stored : txn.objects c = some objects) {fuel : Nat} (enough : objects.length < fuel)
    {query : NativeQuery} {chosen : List QueryObject}
    (selects : query.selected libs txn c false = some chosen) {result : List QueryObject}
    (one : query.OneResult libs fuel txn c result) : chosen.length ≤ 0xffffffff := by
  have listed {offset : Option UInt32} {objects' : List QueryObject}
      (lists : query.Lists libs fuel c offset none objects') :
      objects' = (chosen.drop (offset.getD 0).toNat).take 0xffffffff := by
    obtain ⟨it, opened, yields⟩ := lists
    obtain ⟨it', opened', yields'⟩ :=
      QueryIterator.yields lawful stored enough selects (offset.getD 0) 0xffffffff
    rw [cursor, Option.getD_none] at opened
    cases Option.some.inj (opened.symm.trans opened')
    exact yields.unique yields'
  have all := congrArg List.length (listed one.full)
  have behind := congrArg List.length (listed (one.pages (some 1) none))
  simp only [page, Option.getD_none, Option.getD_some, List.length_take,
    List.length_drop] at all behind
  have zero : (0 : UInt32).toNat = 0 := rfl
  have one : (1 : UInt32).toNat = 1 := rfl
  rw [zero] at all
  rw [one] at behind
  omega

theorem oneResult (lawful : libs.Lawful txn c) (sorts : SortsUnstably libs.sortUnstableBy)
    {objects matched : List QueryObject} (stored : txn.objects c = some objects) {fuel : Nat}
    (enough : objects.length < fuel) {query : NativeQuery}
    (filtered : query.filter.matching libs.toLowercase objects = some matched)
    {chosen : List QueryObject} (selects : query.selected libs txn c false = some chosen)
    (short : chosen.length ≤ 0xffffffff) : query.OneResult libs fuel txn c chosen := by
  obtain ⟨length, unsorted, selects', same⟩ := selected_ignoreSort sorts stored filtered selects
  have few : chosen.length ≤ objects.length := by
    have size : query.size libs matched ≤ matched.length := by
      unfold size
      split
      · exact (List.dedup_sublist _).length_le.trans (List.length_map ..).le
      · exact Nat.le_refl _
    rw [length]
    exact size.trans (mem_matching filtered).1.length_le
  have pages (offset limit : Option UInt32) :
      query.Lists libs fuel c offset limit (page offset limit chosen) := by
    obtain ⟨it, opened, yields⟩ :=
      QueryIterator.yields lawful stored enough selects (offset.getD 0) (limit.getD 0xffffffff)
    rw [page_eq short] at yields
    exact ⟨it, opened, yields⟩
  have counted : ((unsorted.drop (0 : UInt32).toNat).take (0xffffffff : UInt32).toNat) = unsorted := by
    apply List.take_of_length_le
    exact (same.le).trans short
  exact {
    full := pages none none
    objects := by
      intro noSort noDistinct
      have eq : matched = chosen := by
        have unsorted : query.ordered libs false matched = some matched := by
          rw [ordered, noSort]
          rfl
        have all : query.deduplicated libs matched = some matched := by
          rw [deduplicated, noDistinct]
          rfl
        rw [selected, stored, Option.bind_some, filtered, Option.bind_some, unsorted,
          Option.bind_some, all] at selects
        exact Option.some.inj selects
      subst eq
      obtain ⟨sub, members⟩ := mem_matching filtered
      refine ⟨(ascending_objects stored).sublist sub, fun o => ?_⟩
      rw [members, mem_objects stored]
    pages
    consecutive := fun offset limit limit' fits => page_append fits limit' chosen
    ids := by
      intro offset limit
      obtain ⟨it, opened, yields⟩ := pages offset limit
      have short' : (page offset limit chosen).length < fuel := by
        refine lt_of_le_of_lt ?_ (lt_of_le_of_lt few enough)
        rw [← page_eq short]
        exact ((List.take_sublist _ _).trans (List.drop_sublist _ _)).length_le
      rw [cursor] at opened
      rw [getMatchingIds, opened, Option.bind_eq_bind, Option.bind_some,
        collect_of_yields yields short']
      rfl
    count := by
      obtain ⟨it, opened, yields⟩ :=
        QueryIterator.yields lawful stored enough selects' 0 0xffffffff
      rw [counted] at yields
      have short' : unsorted.length < fuel := same ▸ lt_of_le_of_lt few enough
      rw [count, opened, Option.bind_eq_bind, Option.bind_some, collect_of_yields yields short']
      show some (IsarValue.integer (Int64.ofNat unsorted.length)) = _
      rw [same]
    isEmpty := by
      obtain ⟨it, opened, yields⟩ :=
        QueryIterator.yields lawful stored enough selects' 0 0xffffffff
      rw [counted] at yields
      obtain ⟨it', eq, -⟩ := yields.uncons
      rw [isEmpty, opened, Option.bind_eq_bind, Option.bind_some, eq]
      show some (IsarValue.bool unsorted.head?.isNone) = some (IsarValue.bool chosen.isEmpty)
      cases unsorted with
      | nil => rw [List.length_eq_zero_iff.mp same.symm]; rfl
      | cons a unsorted =>
        cases chosen with
        | nil => cases same
        | cons b chosen => rfl }

/-- All paths of a query describe one result exactly if it has no more than 2³² - 1 objects, which
is what a missing limit stands for. -/
theorem one_result_exact (lawful : libs.Lawful txn c) (sorts : SortsUnstably libs.sortUnstableBy)
    {objects matched : List QueryObject} (stored : txn.objects c = some objects) {fuel : Nat}
    (enough : objects.length < fuel) {query : NativeQuery}
    (filtered : query.filter.matching libs.toLowercase objects = some matched)
    (selects : (query.selected libs txn c false).isSome) :
    (∃ result, query.OneResult libs fuel txn c result) ↔ query.size libs matched ≤ 0xffffffff := by
  obtain ⟨chosen, selects⟩ := Option.isSome_iff_exists.mp selects
  have length := (selected_ignoreSort sorts stored filtered selects).1
  constructor
  · intro ⟨result, one⟩
    rw [← length]
    exact length_le_of_oneResult lawful stored enough selects one
  · intro short
    exact ⟨chosen, oneResult lawful sorts stored enough filtered selects (length.trans_le short)⟩

end NativeQuery

/-- Libraries for the cursors of one database. -/
def listLibraries (db : KeyValueDb) : QueryLibraries (SortedCursor.Position KeyVal) where
  toLowercase := id
  xxh3_64_with_seed := fun _ seed => seed
  sortUnstableBy := insertionSortBy
  opGet := db.listCursor
  bind := fun _ => .before []

theorem lawful_listLibraries (txn : NativeTxn) {c : NativeCollection} {name : Db}
    (opened : c.db = some name) :
    (listLibraries (primaryDb (txn.primary name))).Lawful txn c := by
  intro db same
  cases Option.some.inj (opened.symm.trans same)
  exact ⟨Eq, KeyValueDb.lawful_listCursor _⟩

theorem one_result_on_pixels :
    (∃ result, allObjects.OneResult
      (listLibraries (primaryDb ((storedPixels [7, 3]).primary "pixels"))) 3 (storedPixels [7, 3])
      pixels result) ↔
    allObjects.size (listLibraries (primaryDb ((storedPixels [7, 3]).primary "pixels")))
      [(1, ⟨[7], 1⟩), (2, ⟨[3], 1⟩)] ≤ 0xffffffff := by
  have stored : (storedPixels [7, 3]).objects pixels = some [(1, ⟨[7], 1⟩), (2, ⟨[3], 1⟩)] := by
    decide +kernel
  exact NativeQuery.one_result_exact (lawful_listLibraries _ rfl) sortsUnstably_insertionSortBy
    stored (by decide) (by decide +kernel) (by decide +kernel)

/-! ## Too many objects -/

/-- A collection of objects without properties, with this many of them. -/
def marks : NativeCollection := .new 0 "marks" (some "id") [] [] (some "marks")

def storedMarks (count : UInt64) : NativeTxn :=
  { NativeTxn.empty with primary := fun _ => {
      entries := (List.range count.toNat).map fun n => (UInt64.ofNat n, [0, 0, 0])
      sorted := by
        apply List.pairwise_map.mpr
        refine List.pairwise_lt_range.imp_of_mem fun {a b} memA memB below => ?_
        have bound {n : Nat} (mem : n ∈ List.range count.toNat) : n < UInt64.size :=
          (List.mem_range.mp mem).trans count.toNat_lt
        show UInt64.ofNat a < UInt64.ofNat b
        rw [UInt64.lt_iff_toNat_lt, UInt64.toNat_ofNat_of_lt' (bound memA),
          UInt64.toNat_ofNat_of_lt' (bound memB)]
        exact below } }

theorem objects_storedMarks (count : UInt64) :
    (storedMarks count).objects marks =
      some ((List.range count.toNat).map fun n => (idOfKey (UInt64.ofNat n), ⟨[], 0⟩)) := by
  show ((List.range count.toNat).map fun n => (UInt64.ofNat n, [0, 0, 0])).mapM
    (fun e : UInt64 × Bytes =>
      (IsarDeserializer.fromBytes e.2).map fun object => (idOfKey e.1, object)) = _
  rw [List.mapM_map]
  exact List.mapM_pure

theorem matching_all (toLowercase : List Char → List Char) (objects : List QueryObject) :
    allObjects.filter.matching toLowercase objects = some objects := by
  induction objects with
  | nil => rfl
  | cons o objects ih =>
    obtain ⟨id, object⟩ := o
    have ih : NativeFilter.matching toLowercase (.stat true) objects = some objects := ih
    show NativeFilter.matching toLowercase (.stat true) ((id, object) :: objects) = _
    rw [NativeFilter.matching, ih]
    rfl

theorem selected_all (libs : QueryLibraries σ) {objects : List QueryObject}
    (stored : txn.objects c = some objects) :
    allObjects.selected libs txn c false = some objects := by
  rw [NativeQuery.selected, stored, Option.bind_some, matching_all]
  rfl

/-- The last of 2³² objects is behind the missing limit. -/
theorem last_mark_unlisted :
    ¬ ∃ result, allObjects.OneResult
      (listLibraries (primaryDb ((storedMarks 0x100000000).primary "marks"))) (2 ^ 32 + 1)
      (storedMarks 0x100000000) marks result := by
  intro ⟨result, one⟩
  have stored := objects_storedMarks 0x100000000
  have short := NativeQuery.length_le_of_oneResult (lawful_listLibraries _ rfl) stored
    (by rw [List.length_map, List.length_range]; decide) (selected_all _ stored) one
  rw [List.length_map, List.length_range] at short
  revert short
  decide

end IsarPlus.Native
