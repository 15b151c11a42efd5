import IsarPlus.Dart.Proofs.FilterChains

/-!
# How the query builder reads a chain

The filter that is built keeps the disjunction of what stands before the last `or` and the
conjunction behind it apart, as long as no `OrGroup` of a group in parentheses is taken for one that
it has built itself.
-/

namespace IsarPlus.Dart
open Precedence

section
variable {α : Type}

/-! ## Adding a condition -/

def Filter.isOrGroup : Filter α → Bool
  | .orGroup _ => true
  | _ => false

/-- What the builder makes of a condition behind `not`. -/
def signed (negated : Bool) (cond : Filter α) : Filter α :=
  if negated then .notGroup cond else cond

/-- What the builder makes of its filter and a new condition. -/
def joined (groupAnd : Bool) (filter cond : Filter α) : Filter α :=
  if groupAnd then
    match filter with
    | .andGroup filters => .andGroup (filters ++ [cond])
    | .orGroup filters =>
      .orGroup (filters.dropLast ++ filters.getLast?.toList.map fun last => .andGroup [last, cond])
    | filter => .andGroup [filter, cond]
  else
    match filter with
    | .orGroup filters => .orGroup (filters ++ [cond])
    | filter => .orGroup [filter, cond]

theorem addFilterCondition_none (g n : Bool) (cond : Filter α) :
    (⟨none, g, n⟩ : QueryBuilder α).addFilterCondition cond = ⟨some (signed n cond), true, false⟩ :=
  rfl

theorem addFilterCondition_some (filter : Filter α) (g n : Bool) (cond : Filter α) :
    (⟨some filter, g, n⟩ : QueryBuilder α).addFilterCondition cond =
      ⟨some (joined g filter (signed n cond)), true, false⟩ := by
  cases g <;> cases filter <;> rfl

theorem isOrGroup_signed (n : Bool) (cond : Filter α) :
    (signed n cond).isOrGroup = (!n && cond.isOrGroup) := by
  cases n <;> rfl

theorem isOrGroup_joined (g : Bool) (filter cond : Filter α) :
    (joined g filter cond).isOrGroup = (filter.isOrGroup || !g) := by
  cases g <;> cases filter <;> rfl

/-- An `OrGroup` has at least two filters. -/
def Filter.Proper : Filter α → Prop
  | .orGroup filters => 2 ≤ filters.length
  | _ => True

theorem proper_signed (n : Bool) {cond : Filter α} (proper : cond.Proper) :
    (signed n cond).Proper := by
  cases n
  · exact proper
  · trivial

theorem proper_joined (g : Bool) {filter : Filter α} (proper : filter.Proper) (cond : Filter α) :
    (joined g filter cond).Proper := by
  cases g <;> cases filter <;>
    simp only [joined, Filter.Proper, Bool.false_eq_true, if_true, if_false, List.length_cons,
      List.length_nil, List.length_append, List.length_map, List.length_dropLast] at proper ⊢
  case true.orGroup filters =>
    obtain ⟨last, eq⟩ : ∃ last, filters.getLast? = some last := by
      apply Option.isSome_iff_exists.mp
      apply List.getLast?_isSome.mpr
      intro nil
      simp [nil] at proper
    rw [eq]
    simp only [Option.toList_some, List.length_cons, List.length_nil]
    omega
  case false.orGroup filters => omega
  all_goals trivial

/-! ## The filters of calls -/

/-- The filter that a call adds. -/
def Step.tree : Step α → Option (Filter α)
  | .condition c => some (.condition c)
  | .group chain => (runChain {} chain).filter
  | .object property chain => (runChain {} chain).filter.map (.objectFilter property)
  | _ => none

theorem run_of_tree {s : Step α} {filter : Filter α} (tree : s.tree = some filter)
    (q : QueryBuilder α) : s.run q = q.addFilterCondition filter := by
  cases s with
  | condition c => cases tree; rfl
  | group chain =>
    have eq : (runChain {} chain).filter = some filter := tree
    simp only [Step.run, QueryBuilder.group, eq]
  | object property chain =>
    obtain ⟨inner, eq, rfl⟩ := Option.map_eq_some_iff.mp tree
    simp only [Step.run, QueryBuilder.object, eq]
  | and => cases tree
  | or => cases tree
  | not => cases tree

/-- A call adds a filter, or it is an operator. -/
theorem token_cases (s : Step α) : s.token = .term () ∨ s = .and ∨ s = .or ∨ s = .not := by
  cases s <;> simp [Step.token]

theorem chainWellTyped_cons {after : Bool} {s : Step α} {chain : List (Step α)} :
    chainWellTyped after (s :: chain) = true ↔ s.wellTyped = true ∧
      ∃ between, s.token.accept after = some between ∧ chainWellTyped between chain = true := by
  rw [chainWellTyped, Bool.and_eq_true]
  cases s.token.accept after with
  | none => simp
  | some between => simp

theorem chainDisjunctive_cons (negated : Bool) {s : Step α} (term : s.token = .term ())
    (chain : List (Step α)) : chainDisjunctive negated (s :: chain) =
      ((!negated && s.disjunctive) || chain.any fun s => s.token.isOr) := by
  cases s <;> first | rfl | cases term

mutual

/-- The filter of a call is an `OrGroup` if the call looks like one. -/
theorem tree_of_wellTyped (s : Step α) (typed : s.wellTyped = true) (term : s.token = .term ()) :
    ∃ filter, s.tree = some filter ∧ filter.Proper ∧ filter.isOrGroup = s.disjunctive := by
  cases s with
  | condition c => exact ⟨_, rfl, trivial, rfl⟩
  | group chain => exact filter_of_wellTyped false chain typed
  | object property chain =>
    obtain ⟨filter, eq, -, -⟩ := filter_of_wellTyped false chain typed
    exact ⟨.objectFilter property filter, by rw [Step.tree, eq]; rfl, trivial, rfl⟩
  | and => cases term
  | or => cases term
  | not => cases term

/-- From the beginning of a chain. -/
theorem filter_of_wellTyped (n : Bool) (chain : List (Step α))
    (typed : chainWellTyped false chain = true) :
    ∃ filter, (runChain ⟨none, true, n⟩ chain).filter = some filter ∧ filter.Proper ∧
      filter.isOrGroup = chainDisjunctive n chain := by
  cases chain with
  | nil => cases typed
  | cons s chain =>
    obtain ⟨own, between, first, rest⟩ := chainWellTyped_cons.mp typed
    rcases token_cases s with term | rfl | rfl | rfl
    · obtain ⟨filter, tree, proper, isOr⟩ := tree_of_wellTyped s own term
      rw [term] at first
      cases first
      obtain ⟨filter', eq, proper', isOr'⟩ := filter_of_rest (signed n filter) true false
        (proper_signed n proper) chain rest fun _ => rfl
      refine ⟨filter', ?_, proper', ?_⟩
      · rw [runChain, run_of_tree tree, addFilterCondition_none]
        exact eq
      · rw [isOr', chainDisjunctive_cons n term, isOrGroup_signed, isOr]
        simp
    · cases first
    · cases first
    · cases first
      exact filter_of_wellTyped (!n) chain rest

/-- Behind the first condition. -/
theorem filter_of_rest (filter : Filter α) (g n : Bool) (proper : filter.Proper)
    (chain : List (Step α)) {after : Bool} (typed : chainWellTyped after chain = true)
    (plain : after = true → g = true) :
    ∃ filter', (runChain ⟨some filter, g, n⟩ chain).filter = some filter' ∧ filter'.Proper ∧
      filter'.isOrGroup = (filter.isOrGroup || !g || chain.any fun s => s.token.isOr) := by
  cases chain with
  | nil => exact ⟨filter, rfl, proper, by simp [plain typed]⟩
  | cons s chain =>
    obtain ⟨own, between, first, rest⟩ := chainWellTyped_cons.mp typed
    rcases token_cases s with term | rfl | rfl | rfl
    · obtain ⟨cond, tree, -, -⟩ := tree_of_wellTyped s own term
      rw [term] at first
      cases first
      obtain ⟨filter', eq, proper', isOr'⟩ := filter_of_rest (joined g filter (signed n cond)) true
        false (proper_joined g proper _) chain rest fun _ => rfl
      refine ⟨filter', ?_, proper', ?_⟩
      · rw [runChain, run_of_tree tree, addFilterCondition_some]
        exact eq
      · rw [isOr', isOrGroup_joined, List.any_cons, term]
        simp [Token.isOr]
    · cases after with
      | false => cases first
      | true =>
        cases first
        obtain rfl := plain rfl
        exact filter_of_rest filter true n proper chain rest fun _ => rfl
    · cases after with
      | false => cases first
      | true =>
        cases first
        obtain ⟨filter', eq, proper', isOr'⟩ :=
          filter_of_rest filter false n proper chain rest (by simp)
        exact ⟨filter', eq, proper', by rw [isOr']; simp [Step.token, Token.isOr]⟩
    · cases first
      exact filter_of_rest filter g (!n) proper chain rest (by simp)

end

/-! ## Values -/

variable {v : α → Bool}

@[simp] theorem allValues_append (filters filters' : List (Filter α)) :
    allValues v (filters ++ filters') = (allValues v filters && allValues v filters') := by
  induction filters with
  | nil => rfl
  | cons filter filters ih =>
    rw [List.cons_append, allValues, allValues, ih, Bool.and_assoc]

@[simp] theorem anyValue_append (filters filters' : List (Filter α)) :
    anyValue v (filters ++ filters') = (anyValue v filters || anyValue v filters') := by
  induction filters with
  | nil => rfl
  | cons filter filters ih =>
    rw [List.cons_append, anyValue, anyValue, ih, Bool.or_assoc]

theorem value_signed (n : Bool) (cond : Filter α) :
    (signed n cond).value v = (cond.value v != n) := by
  cases n <;> simp [signed, Filter.value]

/-- `and` behind a filter that is no `OrGroup`. -/
theorem value_joined_and {filter : Filter α} (plain : filter.isOrGroup = false)
    (cond : Filter α) :
    (joined true filter cond).value v = (filter.value v && cond.value v) := by
  cases filter with
  | orGroup filters => cases plain
  | andGroup filters => simp [joined, Filter.value, allValues]
  | condition c => simp [joined, Filter.value, allValues]
  | notGroup filter => simp [joined, Filter.value, allValues]
  | objectFilter property filter => simp [joined, Filter.value, allValues]

/-- `and` behind an `OrGroup` concerns its last filter. -/
theorem joined_and_orGroup (filters : List (Filter α)) (last cond : Filter α) :
    joined true (.orGroup (filters ++ [last])) cond =
      .orGroup (filters ++ [.andGroup [last, cond]]) := by
  simp [joined]

theorem joined_or (v : α → Bool) (filter cond : Filter α) :
    ∃ filters, joined false filter cond = .orGroup (filters ++ [cond]) ∧
      anyValue v filters = filter.value v := by
  cases filter with
  | orGroup filters => exact ⟨filters, rfl, rfl⟩
  | andGroup filters => exact ⟨[.andGroup filters], rfl, by simp [anyValue]⟩
  | condition c => exact ⟨[.condition c], rfl, by simp [anyValue]⟩
  | notGroup filter => exact ⟨[.notGroup filter], rfl, by simp [anyValue]⟩
  | objectFilter property filter => exact ⟨[.objectFilter property filter], rfl, by simp [anyValue]⟩

/-- The builder and what has been read of a chain. -/
inductive Shows (v : α → Bool) : QueryBuilder α → Reading → Prop
  | conjunction (filter : Filter α) (n : Bool) (plain : filter.isOrGroup = false) :
    Shows v ⟨some filter, true, n⟩ ⟨false, filter.value v, n⟩
  | disjunction (filters : List (Filter α)) (last : Filter α) (n : Bool) :
    Shows v ⟨some (.orGroup (filters ++ [last])), true, n⟩ ⟨anyValue v filters, last.value v, n⟩
  | pending (filter : Filter α) (n : Bool) :
    Shows v ⟨some filter, false, n⟩ ⟨filter.value v, true, n⟩

theorem shows_addFilterCondition {q : QueryBuilder α} {r : Reading} (shows : Shows v q r)
    (cond : Filter α) :
    Shows v (q.addFilterCondition cond) (r.next (.term (cond.value v))) := by
  cases shows with
  | conjunction filter n plain =>
    have value := @value_joined_and α v filter plain (signed n cond)
    have plain' : (joined true filter (signed n cond)).isOrGroup = false := by
      rw [isOrGroup_joined, plain]
      rfl
    rw [addFilterCondition_some, Reading.next, ← value_signed]
    show Shows v _ ⟨false, filter.value v && (signed n cond).value v, false⟩
    rw [← value]
    exact .conjunction _ false plain'
  | disjunction filters last n =>
    have value : (last.value v && (signed n cond).value v) =
        (Filter.andGroup [last, signed n cond]).value v := by
      simp [Filter.value, allValues]
    rw [addFilterCondition_some, Reading.next, ← value_signed, joined_and_orGroup]
    show Shows v _ ⟨anyValue v filters, last.value v && (signed n cond).value v, false⟩
    rw [value]
    exact .disjunction _ _ false
  | pending filter n =>
    obtain ⟨filters, eq, value⟩ := joined_or v filter (signed n cond)
    rw [addFilterCondition_some, Reading.next, ← value_signed, eq]
    show Shows v _ ⟨filter.value v, true && (signed n cond).value v, false⟩
    rw [Bool.true_and, ← value]
    exact .disjunction filters (signed n cond) false

theorem shows_not {q : QueryBuilder α} {r : Reading} (shows : Shows v q r) :
    Shows v q.not (r.next .not) := by
  cases shows with
  | conjunction filter n plain => exact .conjunction filter (!n) plain
  | disjunction filters last n => exact .disjunction filters last (!n)
  | pending filter n => exact .pending filter (!n)

/-- Where an operator may follow, a condition has just been added. -/
def Ready (after : Bool) (q : QueryBuilder α) : Prop :=
  after = true → q.filterGroupAnd = true ∧ q.filterNot = false

theorem shows_or {q : QueryBuilder α} {r : Reading} (shows : Shows v q r)
    (ready : Ready true q) : Shows v q.or (r.next .or) := by
  obtain ⟨groupAnd, negated⟩ := ready rfl
  cases shows with
  | conjunction filter n plain =>
    obtain rfl : n = false := negated
    exact .pending filter false
  | disjunction filters last n =>
    obtain rfl : n = false := negated
    have value : (anyValue v filters || last.value v) =
        (Filter.orGroup (filters ++ [last])).value v := by
      simp [Filter.value, anyValue]
    show Shows v _ ⟨anyValue v filters || last.value v, true, false⟩
    rw [value]
    exact .pending _ false
  | pending filter n => cases groupAnd

theorem shows_and {q : QueryBuilder α} {r : Reading} (shows : Shows v q r)
    (ready : Ready true q) : Shows v q.and (r.next .and) := by
  have same : q.and = q := by
    obtain ⟨groupAnd, -⟩ := ready rfl
    cases q
    cases groupAnd
    rfl
  rw [same]
  exact shows

theorem result_of_shows {q : QueryBuilder α} {r : Reading} (shows : Shows v q r)
    (ready : Ready true q) : ∃ filter, q.filter = some filter ∧ filter.value v = r.result := by
  obtain ⟨groupAnd, -⟩ := ready rfl
  cases shows with
  | conjunction filter n plain => exact ⟨filter, rfl, rfl⟩
  | disjunction filters last n =>
    exact ⟨_, rfl, by simp [Filter.value, anyValue, Reading.result]⟩
  | pending filter n => cases groupAnd

/-! ## The rest of a chain -/

/-- The token of a call with the value of the filter that it adds. -/
def Step.built (v : α → Bool) (s : Step α) : Token Bool :=
  match s.token with
  | .term _ => .term ((s.tree.map (Filter.value v)).getD true)
  | .and => .and
  | .or => .or
  | .not => .not

theorem built_of_tree {s : Step α} {filter : Filter α} (term : s.token = .term ())
    (tree : s.tree = some filter) : s.built v = .term (filter.value v) := by
  simp [Step.built, term, tree]

/-- Behind the first condition the builder follows the reading. -/
theorem shows_runChain {q : QueryBuilder α} {r : Reading} (shows : Shows v q r) {after : Bool}
    {chain : List (Step α)} (typed : chainWellTyped after chain = true) (ready : Ready after q) :
    Shows v (runChain q chain) (r.read (chain.map (Step.built v))) ∧
      Ready true (runChain q chain) := by
  induction chain generalizing q r after with
  | nil =>
    obtain rfl : after = true := typed
    exact ⟨shows, ready⟩
  | cons s chain ih =>
    obtain ⟨own, between, first, rest⟩ := chainWellTyped_cons.mp typed
    rcases token_cases s with term | rfl | rfl | rfl
    · obtain ⟨cond, tree, -, -⟩ := tree_of_wellTyped s own term
      rw [term] at first
      cases first
      rw [runChain, run_of_tree tree, List.map_cons, Reading.read_cons, built_of_tree term tree]
      exact ih (shows_addFilterCondition shows cond) rest fun _ => ⟨rfl, rfl⟩
    · cases after with
      | false => cases first
      | true =>
        cases first
        exact ih (shows_and shows ready) rest (by simp [Ready])
    · cases after with
      | false => cases first
      | true =>
        cases first
        exact ih (shows_or shows ready) rest (by simp [Ready])
    · cases first
      exact ih (shows_not shows) rest (by simp [Ready])

/-! ## The beginning of a chain -/

theorem misread_cons (n : Bool) {s : Step α} (term : s.token = .term ()) (chain : List (Step α)) :
    misread n (s :: chain) = (!n && s.disjunctive && continues chain) := by
  cases s <;> first | rfl | cases term

/-- An operator `or` or the end of the chain. -/
theorem of_not_continues {chain : List (Step α)} (done : continues chain = false) :
    chain = [] ∨ ∃ rest, chain = .or :: rest := by
  cases chain with
  | nil => exact Or.inl rfl
  | cons s chain =>
    have isOr : s.token.isOr = true := by simpa [continues] using done
    rcases token_cases s with term | rfl | rfl | rfl
    · rw [term] at isOr
      cases isOr
    · cases isOr
    · exact Or.inr ⟨chain, rfl⟩
    · cases isOr

/-- A chain that is not misread is built as it is read. -/
theorem value_runChain (n : Bool) {chain : List (Step α)}
    (typed : chainWellTyped false chain = true) (well : misread n chain = false) :
    ∃ filter, (runChain ⟨none, true, n⟩ chain).filter = some filter ∧
      filter.value v =
        ((⟨false, true, n⟩ : Reading).read (chain.map (Step.built v))).result := by
  induction chain generalizing n with
  | nil => cases typed
  | cons s chain ih =>
    obtain ⟨own, between, first, rest⟩ := chainWellTyped_cons.mp typed
    rcases token_cases s with term | rfl | rfl | rfl
    · obtain ⟨cond, tree, -, isOr⟩ := tree_of_wellTyped s own term
      rw [term] at first
      cases first
      rw [misread_cons n term, ← isOr, ← isOrGroup_signed] at well
      rw [runChain, run_of_tree tree, addFilterCondition_none, List.map_cons, Reading.read_cons,
        built_of_tree term tree]
      have next : (⟨false, true, n⟩ : Reading).next (.term (cond.value v)) =
          ⟨false, (signed n cond).value v, false⟩ := by
        rw [value_signed]
        rfl
      rw [next]
      cases group : (signed n cond).isOrGroup with
      | false =>
        obtain ⟨shows, ready⟩ := shows_runChain (.conjunction (signed n cond) false group) rest
          fun _ => ⟨rfl, rfl⟩
        exact result_of_shows shows ready
      | true =>
        rw [group, Bool.true_and] at well
        rcases of_not_continues well with rfl | ⟨chain, rfl⟩
        · exact ⟨_, rfl, by simp [Reading.result]⟩
        · -- the group ends where its `OrGroup` would
          obtain ⟨-, between, first, rest⟩ := chainWellTyped_cons.mp rest
          cases first
          obtain ⟨shows, ready⟩ := shows_runChain (.pending (signed n cond) false) rest
            (by simp [Ready])
          exact result_of_shows shows ready
    · cases first
    · cases first
    · cases first
      exact ih (!n) rest well

/-! ## Faithful chains -/

mutual

theorem built_eq_reading (s : Step α) (typed : s.wellTyped = true) (faithful : s.faithful = true) :
    s.built v = s.reading v := by
  have inner (chain : List (Step α)) (typed : chainWellTyped false chain = true)
      (faithful : (!misread false chain && stepsFaithful chain) = true)
      (same : chain.map (Step.built v) = readings v chain) :
      ∃ filter, (runChain {} chain).filter = some filter ∧
        filter.value v = Precedence.value (readings v chain) := by
    obtain ⟨well, -⟩ := (Bool.and_eq_true _ _).mp faithful
    obtain ⟨filter, eq, value⟩ := @value_runChain α v false chain typed (by simpa using well)
    refine ⟨filter, eq, ?_⟩
    rw [value, same, value_eq_result]
    rfl
  cases s with
  | condition c => rfl
  | and => rfl
  | or => rfl
  | not => rfl
  | group chain =>
    obtain ⟨-, steps⟩ := (Bool.and_eq_true _ _).mp faithful
    obtain ⟨filter, eq, value⟩ :=
      inner chain typed faithful (builts_eq_readings chain false typed steps)
    have tree : (Step.group chain).tree = some filter := eq
    rw [built_of_tree rfl tree, value]
    rfl
  | object property chain =>
    obtain ⟨-, steps⟩ := (Bool.and_eq_true _ _).mp faithful
    obtain ⟨filter, eq, value⟩ :=
      inner chain typed faithful (builts_eq_readings chain false typed steps)
    have tree : (Step.object property chain).tree = some (.objectFilter property filter) := by
      rw [Step.tree, eq]
      rfl
    rw [built_of_tree rfl tree, Filter.value, value]
    rfl

theorem builts_eq_readings (chain : List (Step α)) (after : Bool)
    (typed : chainWellTyped after chain = true) (faithful : stepsFaithful chain = true) :
    chain.map (Step.built v) = readings v chain := by
  cases chain with
  | nil => rfl
  | cons s chain =>
    obtain ⟨own, between, -, rest⟩ := chainWellTyped_cons.mp typed
    obtain ⟨first, others⟩ := (Bool.and_eq_true _ _).mp faithful
    rw [List.map_cons, readings, built_eq_reading s own first,
      builts_eq_readings chain between rest others]

end

/-- A faithful chain is built as it is read, with the chains inside it. -/
theorem value_of_faithful {chain : List (Step α)} (typed : chainWellTyped false chain = true)
    (faithful : chainFaithful chain = true) :
    ∃ filter, (runChain {} chain).filter = some filter ∧ filter.value v = chainValue v chain := by
  obtain ⟨well, steps⟩ := (Bool.and_eq_true _ _).mp faithful
  obtain ⟨filter, eq, value⟩ := @value_runChain α v false chain typed (by simpa using well)
  refine ⟨filter, eq, ?_⟩
  rw [value, builts_eq_readings chain false typed steps, chainValue, value_eq_result]
  rfl

end

end IsarPlus.Dart
