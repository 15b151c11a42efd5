import IsarPlus.Sqlite.Proofs.ColumnConditions
import IsarPlus.Sqlite.Proofs.FilterNames
import IsarPlus.Sqlite.Proofs.FilterPlaces

/-!
# The translation of filters

On which filters and rows the SQL of a filter means the filter: a translation may be wrong in a place
that does not matter, so that a group is judged by what its filters come to together.
-/

namespace IsarPlus.Sqlite
open Scalar Sql

/-! ## Filters that spell a condition -/

mutual

/-- The filter compares: it has neither JSON conditions nor conditions that match a pattern. -/
def ComparesOnly : Filter → Prop
  | .condition condition =>
    condition.conditionType = .isNull ∨ condition.conditionType.isComparison = true
  | .json _ => False
  | .nested _ filter => ComparesOnly filter
  | .and filters | .or filters => AllCompareOnly filters
  | .not filter => ComparesOnly filter

def AllCompareOnly : List Filter → Prop
  | [] => True
  | filter :: filters => ComparesOnly filter ∧ AllCompareOnly filters

end

section
variable (all : List SQLiteCollection)

mutual

/-- No group that the translation reaches is empty, and the embedded collections exist. A filter on a
property that holds no object is not looked into. -/
def Spellable (c : SQLiteCollection) : Filter → Prop
  | .condition _ | .json _ => True
  | .nested propertyIndex filter => ∀ p, c.getProperty propertyIndex = some p →
      p.dataType = .object → ∃ index embedded, p.collectionIndex = some index ∧
        all[index.toNat]? = some embedded ∧ Spellable embedded filter
  | .and filters | .or filters => filters ≠ [] ∧ SpellableAll c filters
  | .not filter => Spellable c filter

def SpellableAll (c : SQLiteCollection) : List Filter → Prop
  | [] => True
  | filter :: filters => Spellable c filter ∧ SpellableAll c filters

end

end

/-! ## Exact filters -/

/-- The column of the id. -/
def idProperty : SQLiteProperty := ⟨"_rowid_", .long, none⟩

/-- A filter of a group: whether its translation is exact, whether the filter holds and, if the
translation joins two conditions by `OR` without parentheses, what these come to. -/
structure Child where
  exact : Prop
  holds : Bool
  split : Option (Bool × Bool)

/-- The translation is true. -/
def Child.Taken (child : Child) : Prop := child.exact ↔ child.holds = true

/-- The texts of the filters joined by `AND` are true: an `OR` without parentheses separates what
stands before it from what stands behind it. -/
def AndTaken : Prop → List Child → Prop
  | before, [] => before
  | before, child :: children =>
    match child.split with
    | none => AndTaken (before ∧ child.Taken) children
    | some (left, right) => before ∧ left = true ∨ AndTaken (right = true) children

/-- The texts are true together just when all filters hold. -/
def AndExact (children : List Child) : Prop :=
  AndTaken True children ↔ ∀ child ∈ children, child.holds = true

/-- One of the texts is true just when one of the filters holds. -/
def OrExact (children : List Child) : Prop :=
  (∃ child ∈ children, child.Taken) ↔ ∃ child ∈ children, child.holds = true

section
variable (platform : Platform) (all : List SQLiteCollection) (row : String → Value)

/-- A condition is exact at a place. On a column see `ColumnExact`; on a list, and inside of a JSON
column, `JsonCondition::matches` has to answer on the stored JSON what the condition means. -/
def ConditionExact (c : SQLiteCollection) (path : List String) (place : Place) (negated : Bool)
    (condition : FilterCondition) : Prop :=
  let isList := (c.getProperty condition.propertyIndex).any (·.dataType.isList)
  let name := c.getPropertyName condition.propertyIndex
  let matched (column : String) (path : List String) : Bool :=
    (JsonCondition.new platform.toLowercase path condition.conditionType isList condition.values
      condition.caseSensitive).matchesJson platform.toLowercase (platform.columnJson (row column))
  let meant := place.value all platform.toLowercase c (.condition condition)
  match path, place with
  | first :: path, _ => matched first (path ++ [name]) = meant
  | [], .row id fields =>
    if isList then matched name [] = meant
    else condition.conditionType = .isNull ∨ ColumnExact platform.toLowercase negated (row name)
      (propertyValue (.integer id) fields condition.propertyIndex) condition
  | [], _ => False

/-- What the two conditions come to that a filter on a column is translated to. -/
def splitAt (c : SQLiteCollection) (path : List String) (negated : Bool) :
    Filter → Option (Bool × Bool)
  | .condition condition =>
    if path = [] ∧ (c.getProperty condition.propertyIndex).any (·.dataType.isList) = false then
      match columnPart negated (row (c.getPropertyName condition.propertyIndex)) condition with
      | .split left right => some (left, right)
      | .whole _ => none
    else none
  | _ => none

mutual

/-- A filter whose translation is exact at a place, below an odd number of negations if `negated`. Its
conditions are exact or do not matter in their group, and where a nested object is null its filter
without any condition met is false. -/
def Exact (c : SQLiteCollection) (path : List String) (place : Place) (negated : Bool) :
    Filter → Prop
  | .condition condition => ConditionExact platform all row c path place negated condition
  | .json _ => True
  | .nested propertyIndex filter => ∀ p, c.getProperty propertyIndex = some p →
      p.dataType = .object → ∀ index embedded, p.collectionIndex = some index →
        all[index.toNat]? = some embedded →
          Exact embedded (path ++ [p.name]) (place.inner propertyIndex) negated filter ∧
          (place.inner propertyIndex = .absent → place ≠ .absent → bare all embedded filter = false)
  | .and filters => AndExact (childrenOf c path place negated filters)
  | .or filters => OrExact (childrenOf c path place negated filters)
  | .not filter => Exact c path place (!negated) filter

def childrenOf (c : SQLiteCollection) (path : List String) (place : Place) (negated : Bool) :
    List Filter → List Child
  | [] => []
  | filter :: filters =>
    ⟨Exact c path place negated filter, place.value all platform.toLowercase c filter,
      splitAt row c path negated filter⟩ :: childrenOf c path place negated filters

end

end

/-! ## What translations come to -/

/-- What the translation of a filter comes to, and what it should come to. -/
structure Child.Shows (child : Child) (part : Part) : Prop where
  value : part.value = child.holds ↔ child.exact
  split : part = match child.split with
    | none => .whole part.value
    | some (left, right) => .split left right

theorem Child.Shows.taken {child : Child} {part : Part} (h : child.Shows part) :
    part.value = true ↔ child.Taken := by
  rw [Child.Taken, ← h.value]
  cases part.value <;> cases child.holds <;> simp

section
variable {children : List Child} {parts : List Part}

theorem readAnd_iff (h : List.Forall₂ Child.Shows children parts) {before : Bool} {before' : Prop}
    (same : before = true ↔ before') : readAnd before parts = true ↔ AndTaken before' children := by
  induction h generalizing before before' with
  | nil => exact same
  | @cons child part children parts head _ ih =>
    have split := head.split
    unfold AndTaken
    cases eq : child.split with
    | none =>
      rw [eq] at split
      rw [split, readAnd]
      exact ih (by rw [Bool.and_eq_true, same, head.taken])
    | some sides =>
      rw [eq] at split
      obtain ⟨left, right⟩ := sides
      have rest := ih (Iff.refl (right = true))
      rw [split, readAnd, Bool.or_eq_true, Bool.and_eq_true, same, rest]

theorem readAnd_exact (h : List.Forall₂ Child.Shows children parts) :
    (readAnd true parts = (children.map Child.holds).all id) ↔ AndExact children := by
  rw [Bool.eq_iff_iff, readAnd_iff h (iff_of_true rfl trivial)]
  simp [AndExact]

theorem any_exact (h : List.Forall₂ Child.Shows children parts) :
    (parts.any Part.value = (children.map Child.holds).any id) ↔ OrExact children := by
  have taken : parts.any Part.value = true ↔ ∃ child ∈ children, child.Taken := by
    induction h with
    | nil => simp
    | cons head _ ih => simp [List.any_cons, Bool.or_eq_true, head.taken, ih]
  rw [Bool.eq_iff_iff, taken]
  simp [OrExact]

/-- Filters that are exact and no two conditions are exact together. -/
theorem andExact_of_exact (exact : ∀ child ∈ children, child.exact)
    (whole : ∀ child ∈ children, child.split = none) : AndExact children := by
  have taken (before : Prop) : AndTaken before children ↔
      before ∧ ∀ child ∈ children, child.holds = true := by
    induction children generalizing before with
    | nil => simp [AndTaken]
    | cons child children ih =>
      obtain ⟨head, tail⟩ := List.forall_mem_cons.mp exact
      obtain ⟨headWhole, tailWhole⟩ := List.forall_mem_cons.mp whole
      rw [AndTaken, headWhole]
      simp only [ih tail tailWhole, Child.Taken, head, true_iff, List.forall_mem_cons, and_assoc]
  rw [AndExact, taken True, true_and]

theorem orExact_of_exact (exact : ∀ child ∈ children, child.exact) : OrExact children := by
  refine exists_congr fun child => and_congr_right fun mem => ?_
  exact ⟨fun taken => taken.mp (exact child mem), fun holds => iff_of_true (exact child mem) holds⟩

end

section
variable {platform : Platform} {all : List SQLiteCollection} {row : String → Value}
  {c : SQLiteCollection} {path : List String} {place : Place} {negated : Bool}

/-- A condition that `isar_filter_json` evaluates is never `NULL`. -/
theorem contributes_filterJson (negated : Bool) (column : String) (condition : JsonCondition) :
    Contributes (platform.env row) negated (filterJsonSql column condition)
      (.whole (condition.matchesJson platform.toLowercase (platform.columnJson (row column)))) := by
  have called : (platform.env row).call fnFilterJsonName ((platform.env row).column column)
      (.jsonCondition condition) =
        some (condition.matchesJson platform.toLowercase (platform.columnJson (row column))) := by
    simp [Platform.env, sqlFnFilterJson, Platform.columnJson]
  have spells := @spellsNot_call _ (platform.env row) fnFilterJsonName column
    (QueryParam.jsonCondition condition)
  rw [called] at spells
  exact .whole spells

theorem Located.path_eq_nil (located : Located platform all row c path place) :
    path = [] ↔ ∃ id fields, place = .row id fields := by
  cases located <;> simp

/-- The column of a property, or that of the id. -/
theorem Located.column {id : Int64} {fields : List Datum}
    (located : Located platform all row c [] (.row id fields)) (propertyIndex : UInt16) :
    ∃ p, c.getPropertyName propertyIndex = p.name ∧
      (c.getProperty propertyIndex).any (·.dataType.isList) = p.dataType.isList ∧
      ColumnHolds platform all p (propertyValue (.integer id) fields propertyIndex) (row p.name) := by
  cases located with
  | row rowid length column =>
    rcases propertyValue_cases length (.integer id) propertyIndex with
      ⟨property, value⟩ | ⟨i, p, d, property, value, stored, stored'⟩
    · refine ⟨idProperty, by simp [SQLiteCollection.getPropertyName, property, idProperty],
        by rw [property]; rfl, ?_⟩
      rw [value, show row idProperty.name = .integer id from rowid]
      exact .integer (Or.inr (Or.inr rfl))
    · refine ⟨p, by simp [SQLiteCollection.getPropertyName, property], by rw [property]; rfl, ?_⟩
      rw [value]
      exact column i p d stored stored'

theorem columnPart_exact {p : SQLiteProperty} {d : Datum} {v : Value}
    (holds : ColumnHolds platform all p d v) (notList : p.dataType.isList = false)
    {condition : FilterCondition}
    (inScope : condition.conditionType = .isNull ∨ condition.conditionType.isComparison = true) :
    (columnPart negated v condition).value = d.meets platform.toLowercase condition ↔
      condition.conditionType = .isNull ∨ ColumnExact platform.toLowercase negated v d condition := by
  rw [holds.meets notList]
  rcases inScope with null | comparison
  · have same : (columnPart negated v condition).value = d.isNull := by
      rw [← holds.isNull]
      simp [columnPart, null, Part.value]
    rw [same, null]
    exact iff_of_true rfl (Or.inl rfl)
  · have notNull : condition.conditionType ≠ .isNull := by
      intro null
      rw [null] at comparison
      cases comparison
    rw [columnExact_iff holds comparison]
    exact (or_iff_right notNull).symm

/-- The translation of a condition. -/
theorem contributes_conditionSqlPath (negated : Bool) (located : Located platform all row c path place)
    {condition : FilterCondition}
    (inScope : condition.conditionType = .isNull ∨ condition.conditionType.isComparison = true) :
    ∃ part, Contributes (platform.env row) negated
        (conditionSqlPath platform.toLowercase c condition path) part ∧
      Child.Shows ⟨ConditionExact platform all row c path place negated condition,
        place.value all platform.toLowercase c (.condition condition),
        splitAt row c path negated (.condition condition)⟩ part := by
  have json (column : String) (condition' : JsonCondition) (exact : Prop) (m : Bool)
      (same : condition'.matchesJson platform.toLowercase (platform.columnJson (row column)) = m ↔
        exact) :
      ∃ part, Contributes (platform.env row) negated (filterJsonSql column condition') part ∧
      Child.Shows ⟨exact, m, none⟩ part :=
    ⟨_, contributes_filterJson negated column condition', same, rfl⟩
  unfold conditionSqlPath splitAt
  cases path with
  | cons first path =>
    simp only [reduceCtorEq, false_and, if_false]
    exact json _ _ _ _ Iff.rfl
  | nil =>
    obtain ⟨id, fields, rfl⟩ := located.path_eq_nil.mp rfl
    obtain ⟨p, name, isList, holds⟩ := located.column condition.propertyIndex
    simp only [isList, name, true_and]
    cases list : p.dataType.isList with
    | true =>
      simp only [if_true, Bool.true_eq_false, if_false]
      refine json _ _ _ _ ?_
      simp only [ConditionExact, isList, list, name, if_true]
    | false =>
      simp only [Bool.false_eq_true, if_false, if_true]
      refine ⟨_, contributes_condition negated inScope, ?_, ?_⟩
      · rw [name]
        simp only [ConditionExact, isList, list, name, Bool.false_eq_true, if_false]
        exact columnPart_exact holds list inScope
      · rw [name]
        cases columnPart negated (row p.name) condition <;> rfl

mutual

/-- Where a nested object is null, no condition is met. -/
theorem exact_absent (laws : platform.Laws) : (filter : Filter) → {c : SQLiteCollection} →
    {path : List String} → {negated : Bool} → Located platform all row c path .absent → ComparesOnly filter →
    Exact platform all row c path .absent negated filter
  | .condition condition, c, path, negated, located, _ => by
    cases located with
    | @absent first rest missing =>
      simp only [Exact, ConditionExact, Place.value, bare, JsonCondition.matchesJson,
        JsonCondition.new, missing]
  | .json _, _, _, _, _, inScope => by cases inScope
  | .nested propertyIndex filter, c, path, negated, located, inScope => by
    rw [Exact]
    intro p property type index embedded hindex hembedded
    exact ⟨exact_absent laws filter (located.inner laws property type hindex hembedded) inScope,
      fun _ lost => absurd rfl lost⟩
  | .and filters, c, path, negated, located, inScope => by
    obtain ⟨exact, whole⟩ := exact_childrenOf_absent laws filters located inScope
    exact andExact_of_exact exact whole
  | .or filters, c, path, negated, located, inScope => by
    obtain ⟨exact, -⟩ := exact_childrenOf_absent laws filters located inScope
    exact orExact_of_exact exact
  | .not filter, c, path, negated, located, inScope => by
    rw [Exact]
    exact exact_absent laws filter located inScope

theorem exact_childrenOf_absent (laws : platform.Laws) : (filters : List Filter) →
    {c : SQLiteCollection} → {path : List String} → {negated : Bool} → Located platform all row c path .absent →
    AllCompareOnly filters →
    (∀ child ∈ childrenOf platform all row c path .absent negated filters, child.exact) ∧
      ∀ child ∈ childrenOf platform all row c path .absent negated filters, child.split = none
  | [], _, _, _, _, _ => by simp [childrenOf]
  | filter :: filters, c, path, negated, located, inScope => by
    obtain ⟨exact, whole⟩ := exact_childrenOf_absent laws filters located inScope.2
    have split : splitAt row c path negated filter = none := by
      cases located
      cases filter <;> simp [splitAt]
    rw [childrenOf]
    exact ⟨List.forall_mem_cons.mpr ⟨exact_absent laws filter located inScope.1, exact⟩,
      List.forall_mem_cons.mpr ⟨split, whole⟩⟩

end

/-- No filter holds of a nested object that is null. -/
theorem Place.value_nested_lost {propertyIndex : UInt16} (lost : place.inner propertyIndex = .absent)
    (present : place ≠ .absent) (toLowercase : List Char → List Char) (filter : Filter) :
    place.value all toLowercase c (.nested propertyIndex filter) = false := by
  cases place with
  | row id fields => exact holds_nested_absent rfl lost _ _
  | object fields => exact holds_nested_absent rfl lost _ _
  | absent => exact absurd rfl present

theorem map_holds_childrenOf (filters : List Filter) :
    (childrenOf platform all row c path place negated filters).map Child.holds =
      filters.map fun filter => place.value all platform.toLowercase c filter := by
  induction filters with
  | nil => rfl
  | cons filter filters ih => rw [childrenOf, List.map_cons, List.map_cons, ih]

theorem nonempty_of_translated {toLowercase : List Char → List Char} {collectionIndex : UInt16}
    {filters : List Filter} {texts : List (Text QueryParam)} (nonempty : filters ≠ [])
    (translated : filtersSqlPath toLowercase all collectionIndex path filters = some texts) :
    texts ≠ [] := by
  rintro rfl
  cases filters with
  | nil => exact nonempty rfl
  | cons filter filters =>
    simp only [filtersSqlPath, Option.bind_eq_bind, Option.bind_eq_some_iff] at translated
    obtain ⟨_, -, _, -, same⟩ := translated
    cases same

mutual

/-- What the translation of a filter comes to at its place. -/
theorem contributes_filterSqlPath (laws : platform.Laws) : (filter : Filter) →
    {c : SQLiteCollection} → {collectionIndex : UInt16} → {path : List String} → {place : Place} →
    (negated : Bool) → all[collectionIndex.toNat]? = some c →
    Located platform all row c path place → ComparesOnly filter → Spellable all c filter →
    ∃ text part, filterSqlPath platform.toLowercase all collectionIndex path filter = some text ∧
      Contributes (platform.env row) negated text part ∧
      Child.Shows ⟨Exact platform all row c path place negated filter,
        place.value all platform.toLowercase c filter, splitAt row c path negated filter⟩ part
  | .condition condition, c, _, path, place, negated, collection, located, inScope, _ => by
    obtain ⟨part, contributes, shows⟩ := contributes_conditionSqlPath negated located inScope
    refine ⟨_, part, ?_, contributes, shows⟩
    rw [filterSqlPath, collection]
    rfl
  | .json _, _, _, _, _, _, _, _, inScope, _ => by cases inScope
  | .nested propertyIndex filter, c, _, path, place, negated, collection, located, inScope,
      spellable => by
    by_cases object : ∃ p, c.getProperty propertyIndex = some p ∧ p.dataType = .object
    · obtain ⟨p, property, type⟩ := object
      rw [Spellable] at spellable
      obtain ⟨index, embedded, hindex, hembedded, spellable⟩ := spellable p property type
      have inner := located.inner laws property type hindex hembedded
      obtain ⟨text, part, translated, contributes, value, split⟩ :=
        contributes_filterSqlPath laws filter negated hembedded inner inScope spellable
      have elsewhere : splitAt row embedded (path ++ [p.name]) negated filter = none := by
        cases filter <;> simp [splitAt]
      rw [elsewhere] at split
      refine ⟨text, part, ?_, contributes, ?_, split⟩
      · rw [filterSqlPath, collection]
        simp [property, type, hindex, translated]
      have same : Exact platform all row c path place negated (.nested propertyIndex filter) ↔
          Exact platform all row embedded (path ++ [p.name]) (place.inner propertyIndex) negated
              filter ∧
            (place.inner propertyIndex = .absent → place ≠ .absent →
              bare all embedded filter = false) := by
        rw [Exact]
        refine ⟨fun exact => exact p property type index embedded hindex hembedded, ?_⟩
        intro exact p' property' _ index' embedded' hindex' hembedded'
        obtain rfl := Option.some.inj (property.symm.trans property')
        obtain rfl := Option.some.inj (hindex.symm.trans hindex')
        obtain rfl := Option.some.inj (hembedded.symm.trans hembedded')
        exact exact
      show part.value = _ ↔ Exact platform all row c path place negated _
      rw [same]
      by_cases lost : place.inner propertyIndex = .absent ∧ place ≠ .absent
      · have exact : Exact platform all row embedded (path ++ [p.name])
            (place.inner propertyIndex) negated filter := by
          rw [lost.1] at inner ⊢
          exact exact_absent laws filter inner inScope
        have bared : part.value = bare all embedded filter := by
          rw [value.mpr exact, lost.1]
          rfl
        rw [place.value_nested_lost lost.1 lost.2, bared]
        exact ⟨fun none_met => ⟨exact, fun _ _ => none_met⟩, fun exact => exact.2 lost.1 lost.2⟩
      · rw [place.value_nested property type hindex hembedded fun absent present =>
          absurd ⟨absent, present⟩ lost]
        exact value.trans (and_iff_left fun absent present =>
          absurd ⟨absent, present⟩ lost).symm
    · have notObject : ∀ p, c.getProperty propertyIndex = some p → p.dataType ≠ .object :=
        fun p property type => object ⟨p, property, type⟩
      refine ⟨word (.truth false), .whole false, ?_, .whole (spellsNot_truth false), ?_, rfl⟩
      · rw [filterSqlPath, collection]
        cases property : c.getProperty propertyIndex with
        | none => simp [property]
        | some p => simp [property, notObject p property]
      · refine iff_of_true (place.value_nested_of_not_object located notObject _ _).symm ?_
        intro p property type
        exact absurd type (notObject p property)
  | .and filters, c, _, path, place, negated, collection, located, inScope, spellable => by
    rw [Spellable] at spellable
    obtain ⟨texts, parts, translated, contribute, shows⟩ :=
      contributes_filtersSqlPath laws filters negated collection located inScope
        spellable.2
    rw [filterSqlPath, collection, translated]
    have nonempty := nonempty_of_translated spellable.1 translated
    refine ⟨_, _, rfl, (translates_and contribute nonempty).contributes, ?_, rfl⟩
    show readAnd true parts = _ ↔ _
    rw [Place.value_and, ← map_holds_childrenOf]
    exact readAnd_exact shows
  | .or filters, c, _, path, place, negated, collection, located, inScope, spellable => by
    rw [Spellable] at spellable
    obtain ⟨texts, parts, translated, contribute, shows⟩ :=
      contributes_filtersSqlPath laws filters negated collection located inScope
        spellable.2
    rw [filterSqlPath, collection, translated]
    have nonempty := nonempty_of_translated spellable.1 translated
    refine ⟨_, _, rfl, (translates_or contribute nonempty).contributes, ?_, rfl⟩
    show parts.any Part.value = _ ↔ _
    rw [Place.value_or, ← map_holds_childrenOf]
    exact any_exact shows
  | .not filter, c, _, path, place, negated, collection, located, inScope, spellable => by
    obtain ⟨text, part, translated, contributes, value, -⟩ :=
      contributes_filterSqlPath laws filter (!negated) collection located inScope
        spellable
    rw [filterSqlPath, collection, translated]
    refine ⟨_, _, rfl, contributes.translates.not.contributes, ?_, rfl⟩
    show (!part.value) = _ ↔ _
    rw [Place.value_not, Bool.not_inj_iff]
    exact value

theorem contributes_filtersSqlPath (laws : platform.Laws) : (filters : List Filter) →
    {c : SQLiteCollection} → {collectionIndex : UInt16} → {path : List String} → {place : Place} →
    (negated : Bool) → all[collectionIndex.toNat]? = some c →
    Located platform all row c path place → AllCompareOnly filters →
    SpellableAll all c filters →
    ∃ texts parts, filtersSqlPath platform.toLowercase all collectionIndex path filters =
        some texts ∧
      List.Forall₂ (Contributes (platform.env row) negated) texts parts ∧
      List.Forall₂ Child.Shows (childrenOf platform all row c path place negated filters) parts
  | [], _, _, _, _, _, _, _, _, _ => ⟨[], [], rfl, .nil, .nil⟩
  | filter :: filters, c, _, path, place, negated, collection, located, inScope, spellable => by
    rw [SpellableAll] at spellable
    obtain ⟨text, part, translated, head, shows⟩ :=
      contributes_filterSqlPath laws filter negated collection located inScope.1
        spellable.1
    obtain ⟨texts, parts, translated', tail, shows'⟩ :=
      contributes_filtersSqlPath laws filters negated collection located inScope.2
        spellable.2
    rw [filtersSqlPath, translated, translated', childrenOf]
    exact ⟨_, _, rfl, .cons head tail, .cons shows shows'⟩

end

theorem exists_of_filterSqlPath {filter : Filter} {collectionIndex : UInt16}
    {toLowercase : List Char → List Char} {text : Text QueryParam}
    (translated : filterSqlPath toLowercase all collectionIndex path filter = some text) :
    ∃ c, all[collectionIndex.toNat]? = some c := by
  cases filter with
  | json => simp [filterSqlPath] at translated
  | _ =>
    simp only [filterSqlPath, Option.bind_eq_bind, Option.bind_eq_some_iff] at translated
    exact ⟨_, translated.choose_spec.1⟩

/-- A group without filters spells nothing, nor does one with a filter that does not. -/
theorem failsNot_group {separator : Token} (isGroup : separator = .and ∨ separator = .or)
    {filters : List Filter} {collectionIndex : UInt16} {toLowercase : List Char → List Char}
    {texts : List (Text QueryParam)}
    (translated : filtersSqlPath toLowercase all collectionIndex path filters = some texts)
    (h : filters = [] ∨ Spoilt (platform.env row) negated texts) :
    FailsNot (word .lparen ++ joinSql separator texts ++ word .rparen) := by
  rcases h with rfl | spoilt
  · rw [filtersSqlPath] at translated
    obtain rfl := Option.some.inj translated
    exact failsNot_parens
  · exact spoilt.failsNot isGroup

mutual

/-- A filter that is not spellable is not translated, or its text spells nothing. -/
theorem fails_filterSqlPath (laws : platform.Laws) : (filter : Filter) →
    {c : SQLiteCollection} → {collectionIndex : UInt16} → {path : List String} → {place : Place} →
    (negated : Bool) → all[collectionIndex.toNat]? = some c →
    Located platform all row c path place → ComparesOnly filter → ¬ Spellable all c filter →
    ∀ text, filterSqlPath platform.toLowercase all collectionIndex path filter = some text →
      FailsNot text
  | .condition _, _, _, _, _, _, _, _, _, unspellable => by simp [Spellable] at unspellable
  | .json _, _, _, _, _, _, _, _, inScope, _ => by cases inScope
  | .nested propertyIndex filter, c, _, path, place, negated, collection, located, inScope,
      unspellable => by
    intro text translated
    simp only [Spellable, not_forall] at unspellable
    obtain ⟨p, property, type, missing⟩ := unspellable
    rw [filterSqlPath, collection] at translated
    simp only [Option.bind_eq_bind, Option.bind_some, property, type, if_true,
      Option.bind_eq_some_iff] at translated
    obtain ⟨index, hindex, translated⟩ := translated
    obtain ⟨embedded, hembedded⟩ := exists_of_filterSqlPath translated
    refine fails_filterSqlPath laws filter negated hembedded
      (located.inner laws property type hindex hembedded) inScope (fun spellable => ?_) text
      translated
    exact missing ⟨index, embedded, hindex, hembedded, spellable⟩
  | .and filters, c, _, path, place, negated, collection, located, inScope, unspellable => by
    intro text translated
    rw [filterSqlPath, collection] at translated
    simp only [Option.bind_eq_bind, Option.bind_some, Option.bind_eq_some_iff] at translated
    obtain ⟨texts, translated, same⟩ := translated
    cases same
    rw [Spellable, not_and_or, not_not] at unspellable
    exact failsNot_group (Or.inl rfl) translated (unspellable.imp_right fun unspellable =>
      spoilt_filtersSqlPath laws filters negated collection located inScope unspellable texts
        translated)
  | .or filters, c, _, path, place, negated, collection, located, inScope, unspellable => by
    intro text translated
    rw [filterSqlPath, collection] at translated
    simp only [Option.bind_eq_bind, Option.bind_some, Option.bind_eq_some_iff] at translated
    obtain ⟨texts, translated, same⟩ := translated
    cases same
    rw [Spellable, not_and_or, not_not] at unspellable
    exact failsNot_group (Or.inr rfl) translated (unspellable.imp_right fun unspellable =>
      spoilt_filtersSqlPath laws filters negated collection located inScope unspellable texts
        translated)
  | .not filter, c, _, path, place, negated, collection, located, inScope, unspellable => by
    intro text translated
    rw [filterSqlPath, collection] at translated
    simp only [Option.bind_eq_bind, Option.bind_some, Option.bind_eq_some_iff] at translated
    obtain ⟨inner, translated, same⟩ := translated
    cases same
    have fails := fails_filterSqlPath laws filter (!negated) collection located inScope unspellable
      inner translated
    have group : FailsOr inner := by
      have whole := (fails.failsAnd ⟨[], []⟩).failsOr
      rwa [append_nil] at whole
    exact (group.paren _).not

theorem spoilt_filtersSqlPath (laws : platform.Laws) : (filters : List Filter) →
    {c : SQLiteCollection} → {collectionIndex : UInt16} → {path : List String} → {place : Place} →
    (negated : Bool) → all[collectionIndex.toNat]? = some c →
    Located platform all row c path place → AllCompareOnly filters → ¬ SpellableAll all c filters →
    ∀ texts, filtersSqlPath platform.toLowercase all collectionIndex path filters = some texts →
      Spoilt (platform.env row) negated texts
  | [], _, _, _, _, _, _, _, _, unspellable => by simp [SpellableAll] at unspellable
  | filter :: filters, c, _, path, place, negated, collection, located, inScope, unspellable => by
    intro texts translated
    simp only [filtersSqlPath, Option.bind_eq_bind, Option.bind_eq_some_iff] at translated
    obtain ⟨text, translated, texts, translated', same⟩ := translated
    cases same
    by_cases spellable : Spellable all c filter
    · obtain ⟨text', part, found, contributes, -⟩ :=
        contributes_filterSqlPath laws filter negated collection located inScope.1 spellable
      obtain rfl := Option.some.inj (found.symm.trans translated)
      obtain ⟨front, parts, spoiler, rest, rfl, contribute, fails⟩ :=
        spoilt_filtersSqlPath laws filters negated collection located inScope.2
          (fun others => unspellable ⟨spellable, others⟩) texts translated'
      exact ⟨_ :: front, part :: parts, spoiler, rest, rfl, .cons contributes contribute, fails⟩
    · exact ⟨[], [], text, texts, rfl, .nil,
        fails_filterSqlPath laws filter negated collection located inScope.1 spellable text translated⟩

end

end

/-! ## Filters on rows -/

/-- A platform for rows without JSON. -/
def plainPlatform : Platform where
  toLowercase s := s.map Char.toLower
  valueText v := match v with
    | .text s => s
    | _ => []
  fromStr _ := none

/-- A platform that can read one array. -/
def sevenPlatform : Platform where
  toLowercase := plainPlatform.toLowercase
  valueText := plainPlatform.valueText
  fromStr s := if s = ['[', '7', ']'] then some (.array [.number (.integer 7)]) else none

theorem sevenPlatform_laws : sevenPlatform.Laws := ⟨fun _ => rfl, rfl, rfl⟩

/-- Two integers and some bytes. -/
def readings : SQLiteCollection :=
  ⟨"reading", some "id", [⟨"low", .long, none⟩, ⟨"high", .long, none⟩, ⟨"bytes", .byteList, none⟩]⟩

theorem plainNames_readings : readings.PlainNames := by
  refine ⟨by decide +kernel, fun p mem => ?_⟩
  simp only [readings, List.mem_cons, List.not_mem_nil, or_false] at mem
  rcases mem with rfl | rfl | rfl <;> decide +kernel

def readingRow (low high bytes : Value) : String → Value
  | "_rowid_" => .integer 7
  | "low" => low
  | "high" => high
  | "bytes" => bytes
  | _ => .null

theorem located_readingRow {low high bytes : Datum} {v w u : Value}
    (hlow : ColumnHolds sevenPlatform [readings] ⟨"low", .long, none⟩ low v)
    (hhigh : ColumnHolds sevenPlatform [readings] ⟨"high", .long, none⟩ high w)
    (hbytes : ColumnHolds sevenPlatform [readings] ⟨"bytes", .byteList, none⟩ bytes u) :
    Located sevenPlatform [readings] (readingRow v w u) readings [] (.row 7 [low, high, bytes]) := by
  refine .row rfl rfl fun i p d property value => ?_
  match i with
  | 0 =>
    obtain rfl := Option.some.inj property
    obtain rfl := Option.some.inj value
    exact hlow
  | 1 =>
    obtain rfl := Option.some.inj property
    obtain rfl := Option.some.inj value
    exact hhigh
  | 2 =>
    obtain rfl := Option.some.inj property
    obtain rfl := Option.some.inj value
    exact hbytes

/-- `low < bound`. -/
def lowBelow (bound : Int64) : FilterCondition := ⟨1, .less, [some (.integer bound)], true⟩

/-- `high > 3`. -/
def highAboveThree : FilterCondition := ⟨2, .greater, [some (.integer 3)], true⟩

/-- One of the bytes is 7. -/
def bytesSeven : FilterCondition := ⟨3, .equal, [some (.integer 7)], true⟩

/-- `(bytes == 7 and low < 5 and low < 10) or not not high > 3`. -/
def bytesOrHigh : Filter :=
  .or [.and [.condition bytesSeven, .condition (lowBelow 5), .condition (lowBelow 10)],
    .not (.not (.condition highAboveThree))]

/-- No low value, 1 as the high one and the bytes `[7]`, written one by one. -/
def emptyLow : String → Value := readingRow .null (.integer 1) (.text ['[', '7', ']'])

theorem located_emptyLow : Located sevenPlatform [readings] emptyLow readings []
    (.row 7 [.null, .integer 1, .list (some [.integer 7])]) := by
  refine located_readingRow (.null rfl (by decide)) (.integer (Or.inr (Or.inr rfl))) ?_
  refine .json rfl (Or.inl rfl) ?_ rfl
  refine .list rfl rfl fun i d j element value => ?_
  match i with
  | 0 =>
    obtain rfl := Option.some.inj element
    obtain rfl := Option.some.inj value
    exact .integer (Or.inl rfl)

theorem bytesOrHigh_exact : Exact sevenPlatform [readings] emptyLow readings []
    (.row 7 [.null, .integer 1, .list (some [.integer 7])]) false bytesOrHigh := by
  apply orExact_of_exact
  simp only [childrenOf, List.forall_mem_cons, List.not_mem_nil, false_implies, implies_true,
    and_true]
  constructor
  · -- on null both comparisons are unknown, and what stands behind the last `OR` decides
    refine iff_of_true (Or.inr (Or.inr rfl)) ?_
    simp only [childrenOf, List.forall_mem_cons, List.not_mem_nil, false_implies, implies_true,
      and_true]
    decide
  · refine Or.inr ⟨nofun, fun _ _ lower unbounded => ?_, nofun, fun _ untyped => ?_⟩
    · cases unbounded.1
    · refine absurd ⟨fun operand first => ?_, nofun⟩ untyped
      cases first
      trivial

end IsarPlus.Sqlite
