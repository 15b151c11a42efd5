import IsarPlus.Dart.Proofs.ChainReading

/-!
# The chains that the query builder misreads

For a chain that is not faithful there are truth values of its conditions for which the filter that
is built differs from the chain.
-/

namespace IsarPlus.Dart
open Precedence

section
variable {α : Type}

/-! ## Conditions that agree -/

section
variable (yes no : α)

mutual

/-- The call with conditions such that it has the wanted value. -/
def Step.set (wanted : Bool) : Step α → Step α
  | .condition _ => .condition (if wanted then yes else no)
  | .and => .and
  | .or => .or
  | .not => .not
  | .group chain => .group (setAll wanted false chain)
  | .object property chain => .object property (setAll wanted false chain)

/-- The chain with conditions such that every call has the wanted value, behind its negations. -/
def setAll (wanted negated : Bool) : List (Step α) → List (Step α)
  | [] => []
  | s :: chain => s.set (wanted != negated) :: setAll wanted (s.token.pending negated) chain

end

variable {yes no}

mutual

theorem shape_set (wanted : Bool) (s : Step α) : (s.set yes no wanted).shape = s.shape := by
  cases s with
  | condition c => rfl
  | and => rfl
  | or => rfl
  | not => rfl
  | group chain => rw [Step.set, Step.shape, Step.shape, shapes_setAll wanted false chain]
  | object property chain =>
    rw [Step.set, Step.shape, Step.shape, shapes_setAll wanted false chain]

theorem shapes_setAll (wanted negated : Bool) (chain : List (Step α)) :
    shapes (setAll yes no wanted negated chain) = shapes chain := by
  cases chain with
  | nil => rfl
  | cons s chain =>
    rw [setAll, shapes, shapes, shape_set _ s, shapes_setAll wanted _ chain]

end

end

theorem token_of_shape {s s' : Step α} (same : s'.shape = s.shape) : s'.token = s.token := by
  rw [← token_shape s', same, token_shape]

theorem wellTyped_of_shapes {chain chain' : List (Step α)} (same : shapes chain' = shapes chain)
    {after : Bool} (typed : chainWellTyped after chain = true) :
    chainWellTyped after chain' = true := by
  rw [← chainWellTyped_shapes, same, chainWellTyped_shapes]
  exact typed

/-- The types of a chain are those of its tokens. -/
theorem accepts_of_wellTyped {after : Bool} {chain : List (Step α)}
    (typed : chainWellTyped after chain = true) :
    accepts after (chain.map Step.token) = some true := by
  induction chain generalizing after with
  | nil => exact congrArg some typed
  | cons s chain ih =>
    obtain ⟨-, between, first, rest⟩ := chainWellTyped_cons.mp typed
    exact accepts_cons.mpr ⟨between, first, ih rest⟩

theorem wellTyped_of_mem {after : Bool} {chain : List (Step α)}
    (typed : chainWellTyped after chain = true) : ∀ s ∈ chain, s.wellTyped = true := by
  induction chain generalizing after with
  | nil => simp
  | cons s chain ih =>
    obtain ⟨own, between, -, rest⟩ := chainWellTyped_cons.mp typed
    intro s' mem
    rcases List.mem_cons.mp mem with rfl | mem
    · exact own
    · exact ih rest s' mem

section
variable {v : α → Bool} {yes no : α}

/-- A condition that holds and one that fails. -/
def Tells (v : α → Bool) (yes no : α) : Prop := v yes = true ∧ v no = false

mutual

/-- The value that is read. -/
theorem reading_set (tells : Tells v yes no) (wanted : Bool) (s : Step α) (typed : s.wellTyped = true)
    (term : s.token = .term ()) : (s.set yes no wanted).reading v = .term wanted := by
  have inner (chain : List (Step α)) (typed : chainWellTyped false chain = true)
      (same : readings v (setAll yes no wanted false chain) =
        uniform wanted false (chain.map Step.token)) :
      Precedence.value (readings v (setAll yes no wanted false chain)) = wanted := by
    rw [same]
    exact value_uniform wanted (accepts_of_wellTyped typed)
  cases s with
  | condition c => cases wanted <;> simp [Step.set, Step.reading, tells.1, tells.2]
  | and => cases term
  | or => cases term
  | not => cases term
  | group chain =>
    have value := inner chain typed
      (readings_setAll tells wanted false chain (wellTyped_of_mem typed))
    rw [Step.set, Step.reading, value]
  | object property chain =>
    have value := inner chain typed
      (readings_setAll tells wanted false chain (wellTyped_of_mem typed))
    rw [Step.set, Step.reading, value]

theorem readings_setAll (tells : Tells v yes no) (wanted negated : Bool) (chain : List (Step α))
    (typed : ∀ s ∈ chain, s.wellTyped = true) :
    readings v (setAll yes no wanted negated chain) =
      uniform wanted negated (chain.map Step.token) := by
  cases chain with
  | nil => rfl
  | cons s chain =>
    have rest (n : Bool) := readings_setAll tells wanted n chain fun s mem =>
      typed s (List.mem_cons_of_mem _ mem)
    have first := reading_set tells (wanted != negated) s (typed s List.mem_cons_self)
    rw [setAll, readings, List.map_cons, rest]
    rcases token_cases s with term | rfl | rfl | rfl
    · rw [first term, term]
      rfl
    · rfl
    · rfl
    · rfl

end

/-! ## Filters that agree -/

/-- The filters of an `OrGroup`. -/
def Filter.disjuncts : Filter α → List (Filter α)
  | .orGroup filters => filters
  | filter => [filter]

/-- The filter has a value, and so have the filters of an `OrGroup`. -/
structure Filter.Uniform (v : α → Bool) (b : Bool) (filter : Filter α) : Prop where
  some : filter.disjuncts ≠ []
  all : ∀ d ∈ filter.disjuncts, d.value v = b

theorem value_eq_anyValue (filter : Filter α) : filter.value v = anyValue v filter.disjuncts := by
  cases filter with
  | orGroup filters => rfl
  | _ => simp [Filter.disjuncts, anyValue]

theorem anyValue_of_all {filters : List (Filter α)} {b : Bool} (some : filters ≠ [])
    (all : ∀ d ∈ filters, d.value v = b) : anyValue v filters = b := by
  induction filters with
  | nil => exact absurd rfl some
  | cons d filters ih =>
    rw [anyValue, all d List.mem_cons_self]
    cases filters with
    | nil => simp [anyValue]
    | cons d' filters =>
      rw [ih (by simp) fun d mem => all d (List.mem_cons_of_mem _ mem), Bool.or_self]

theorem Filter.Uniform.value {filter : Filter α} {b : Bool} (h : filter.Uniform v b) :
    filter.value v = b := by
  rw [value_eq_anyValue]
  exact anyValue_of_all h.some h.all

theorem disjuncts_of_plain {filter : Filter α} (plain : filter.isOrGroup = false) :
    filter.disjuncts = [filter] := by
  cases filter with
  | orGroup filters => cases plain
  | _ => rfl

theorem uniform_of_plain {filter : Filter α} (plain : filter.isOrGroup = false) {b : Bool}
    (value : filter.value v = b) : filter.Uniform v b := by
  refine ⟨?_, ?_⟩
  · rw [disjuncts_of_plain plain]
    exact List.cons_ne_nil _ _
  · rw [disjuncts_of_plain plain]
    simpa using value

theorem uniform_signed {filter : Filter α} {b : Bool} (n : Bool)
    (h : filter.Uniform v (b != n)) : (signed n filter).Uniform v b := by
  cases n with
  | false => simpa [signed] using h
  | true =>
    apply uniform_of_plain rfl
    simp [signed, Filter.value, h.value]

theorem disjuncts_joined_or (filter cond : Filter α) :
    (joined false filter cond).disjuncts = filter.disjuncts ++ [cond] := by
  cases filter <;> rfl

theorem uniform_joined {filter cond : Filter α} {b : Bool} (g : Bool) (h : filter.Uniform v b)
    (value : cond.value v = b) : (joined g filter cond).Uniform v b := by
  cases g with
  | false =>
    refine ⟨by simp [disjuncts_joined_or], ?_⟩
    intro d mem
    rw [disjuncts_joined_or, List.mem_append, List.mem_singleton] at mem
    rcases mem with mem | rfl
    · exact h.all d mem
    · exact value
  | true =>
    cases group : filter.isOrGroup with
    | false =>
      apply uniform_of_plain
      · rw [isOrGroup_joined, group]
        rfl
      · rw [value_joined_and group, h.value, value, Bool.and_self]
    | true =>
      cases filter with
      | orGroup filters =>
        obtain ⟨filters, last, rfl⟩ := (List.eq_nil_or_concat' filters).resolve_left h.some
        have all (d : Filter α) (mem : d ∈ filters ++ [last]) : d.value v = b := h.all d mem
        rw [joined_and_orGroup]
        refine ⟨by simp [Filter.disjuncts], fun d mem => ?_⟩
        have mem : d ∈ filters ++ [.andGroup [last, cond]] := mem
        rw [List.mem_append, List.mem_singleton] at mem
        rcases mem with mem | rfl
        · exact all d (List.mem_append_left _ mem)
        · simp [Filter.value, allValues, all last (by simp), value]
      | _ => cases group

mutual

/-- The filter that is built. -/
theorem tree_set (tells : Tells v yes no) (wanted : Bool) (s : Step α) (typed : s.wellTyped = true)
    (term : s.token = .term ()) :
    ∃ filter, (s.set yes no wanted).tree = some filter ∧ filter.Uniform v wanted := by
  cases s with
  | condition c =>
    refine ⟨_, rfl, uniform_of_plain rfl ?_⟩
    cases wanted <;> simp [Filter.value, tells.1, tells.2]
  | and => cases term
  | or => cases term
  | not => cases term
  | group chain => exact filter_setAll tells wanted none true false (by simp) chain typed (by simp)
  | object property chain =>
    obtain ⟨filter, eq, h⟩ :=
      filter_setAll tells wanted none true false (by simp) chain typed (by simp)
    refine ⟨.objectFilter property filter, ?_, uniform_of_plain rfl h.value⟩
    rw [Step.set, Step.tree, eq]
    rfl

theorem filter_setAll (tells : Tells v yes no) (wanted : Bool) (filter : Option (Filter α))
    (g n : Bool) (h : ∀ f, filter = some f → f.Uniform v wanted) (chain : List (Step α))
    {after : Bool} (typed : chainWellTyped after chain = true)
    (plain : after = true → filter.isSome = true) :
    ∃ filter', (runChain ⟨filter, g, n⟩ (setAll yes no wanted n chain)).filter = some filter' ∧
      filter'.Uniform v wanted := by
  cases chain with
  | nil =>
    obtain ⟨f, rfl⟩ := Option.isSome_iff_exists.mp (plain typed)
    exact ⟨f, rfl, h f rfl⟩
  | cons s chain =>
    obtain ⟨own, between, first, rest⟩ := chainWellTyped_cons.mp typed
    rcases token_cases s with term | rfl | rfl | rfl
    · obtain ⟨cond, tree, uniform⟩ := tree_set tells (wanted != n) s own term
      have signed := uniform_signed n uniform
      rw [setAll, runChain, run_of_tree tree, term]
      rw [term] at first
      cases first
      cases filter with
      | none =>
        rw [addFilterCondition_none]
        exact filter_setAll tells wanted _ true false
          (fun f eq => Option.some.inj eq ▸ signed) chain rest fun _ => rfl
      | some f =>
        rw [addFilterCondition_some]
        exact filter_setAll tells wanted _ true false
          (fun f' eq => Option.some.inj eq ▸ uniform_joined g (h f rfl) signed.value) chain rest
          fun _ => rfl
    · cases after with
      | false => cases first
      | true =>
        cases first
        exact filter_setAll tells wanted filter true n h chain rest (by simp)
    · cases after with
      | false => cases first
      | true =>
        cases first
        exact filter_setAll tells wanted filter false n h chain rest (by simp)
    · cases first
      exact filter_setAll tells wanted filter g (!n) h chain rest (by simp)

end

/-- Such a chain is built as it is read. -/
theorem builts_setAll (tells : Tells v yes no) (wanted negated : Bool) {chain : List (Step α)}
    (typed : ∀ s ∈ chain, s.wellTyped = true) :
    (setAll yes no wanted negated chain).map (Step.built v) =
      uniform wanted negated (chain.map Step.token) := by
  induction chain generalizing negated with
  | nil => rfl
  | cons s chain ih =>
    have rest (n : Bool) := ih n fun s mem => typed s (List.mem_cons_of_mem _ mem)
    rw [setAll, List.map_cons, List.map_cons, rest]
    rcases token_cases s with term | rfl | rfl | rfl
    · obtain ⟨filter, tree, h⟩ :=
        tree_set tells (wanted != negated) s (typed s List.mem_cons_self) term
      have token := (token_of_shape (@shape_set α yes no (wanted != negated) s)).trans term
      rw [built_of_tree token tree, h.value, term]
      rfl
    · rfl
    · rfl
    · rfl

/-! ## A group that is misread -/

/-- Some values of the conditions tell the filter from the chain. -/
theorem misread_refuted (tells : Tells v yes no) (n : Bool) {chain : List (Step α)}
    (typed : chainWellTyped false chain = true) (bad : misread n chain = true) :
    ∃ w filter, shapes w = shapes chain ∧
      (runChain ⟨none, true, n⟩ w).filter = some filter ∧ filter.value v = true ∧
      ((⟨false, true, n⟩ : Reading).read (readings v w)).result = false := by
  induction chain generalizing n with
  | nil => cases bad
  | cons s chain ih =>
    obtain ⟨own, between, first, rest⟩ := chainWellTyped_cons.mp typed
    rcases token_cases s with term | rfl | rfl | rfl
    · rw [term] at first
      cases first
      rw [misread_cons n term, Bool.and_eq_true, Bool.and_eq_true] at bad
      obtain ⟨⟨plain, disjunctive⟩, goes⟩ := bad
      obtain rfl : n = false := by simpa using plain
      -- the group holds, and nothing behind it
      have shape := @shape_set α yes no true s
      have token := (token_of_shape shape).trans term
      have own' : (s.set yes no true).wellTyped = true := by
        rw [← wellTyped_shape, shape, wellTyped_shape]
        exact own
      have rest' := wellTyped_of_shapes (@shapes_setAll α yes no false false chain) rest
      have typed' := wellTyped_of_mem rest
      obtain ⟨group, tree, uniform⟩ := tree_set tells true s own term
      obtain ⟨group', tree', proper, isOr⟩ := tree_of_wellTyped _ own' token
      obtain rfl : group' = group := Option.some.inj (tree'.symm.trans tree)
      rw [← disjunctive_shape, shape, disjunctive_shape, disjunctive] at isOr
      refine ⟨s.set yes no true :: setAll yes no false false chain, ?_⟩
      rw [runChain, run_of_tree tree, addFilterCondition_none, readings, Reading.read_cons,
        reading_set tells true s own term, readings_setAll tells false false chain typed',
        shapes, shapes, shape, shapes_setAll]
      cases group' with
      | orGroup filters =>
        obtain ⟨filters, last, rfl⟩ := (List.eq_nil_or_concat' filters).resolve_left uniform.some
        have more : filters ≠ [] := by
          rintro rfl
          have : 2 ≤ 1 := proper
          omega
        have left : anyValue v filters = true := anyValue_of_all more fun d mem =>
          uniform.all d (List.mem_append_left _ mem)
        obtain ⟨shows, ready⟩ := shows_runChain (.disjunction filters last false) rest'
          fun _ => ⟨rfl, rfl⟩
        obtain ⟨filter, eq, value⟩ := result_of_shows shows ready
        refine ⟨filter, rfl, eq, ?_, ?_⟩
        · rw [value]
          exact Reading.result_of_disjunction left _
        · cases chain with
          | nil => cases goes
          | cons s' chain =>
            exact Reading.result_uniform_false (accepts_of_wellTyped rest) (by simpa [continues]
              using goes)
      | _ => cases isOr
    · cases first
    · cases first
    · cases first
      obtain ⟨w, filter, same, eq, holds, fails⟩ := ih (!n) rest bad
      exact ⟨.not :: w, filter, by rw [shapes, same]; rfl, eq, holds, fails⟩

/-! ## A chain inside a chain -/

theorem shapes_append (chain chain' : List (Step α)) :
    shapes (chain ++ chain') = shapes chain ++ shapes chain' := by
  induction chain with
  | nil => rfl
  | cons s chain ih => rw [List.cons_append, shapes, shapes, ih, List.cons_append]

theorem readings_append (chain chain' : List (Step α)) :
    readings v (chain ++ chain') = readings v chain ++ readings v chain' := by
  induction chain with
  | nil => rfl
  | cons s chain ih => rw [List.cons_append, readings, readings, ih, List.cons_append]

theorem split_last_or (chain : List (Step α)) : (∀ s ∈ chain, s.token.isOr = false) ∨
    ∃ pre post, chain = pre ++ .or :: post ∧ ∀ s ∈ post, s.token.isOr = false := by
  induction chain with
  | nil => exact Or.inl (by simp)
  | cons s chain ih =>
    rcases ih with free | ⟨pre, post, rfl, free⟩
    · cases isOr : s.token.isOr with
      | false =>
        refine Or.inl fun s' mem => ?_
        rcases List.mem_cons.mp mem with rfl | mem
        · exact isOr
        · exact free s' mem
      | true =>
        have eq : s = .or := by cases s <;> first | rfl | cases isOr
        exact Or.inr ⟨[], chain, by rw [eq]; rfl, free⟩
    · exact Or.inr ⟨s :: pre, post, rfl, free⟩

theorem split_first_or (chain : List (Step α)) : (∀ s ∈ chain, s.token.isOr = false) ∨
    ∃ pre post, chain = pre ++ .or :: post ∧ ∀ s ∈ pre, s.token.isOr = false := by
  induction chain with
  | nil => exact Or.inl (by simp)
  | cons s chain ih =>
    cases isOr : s.token.isOr with
    | true =>
      have eq : s = .or := by cases s <;> first | rfl | cases isOr
      exact Or.inr ⟨[], chain, by rw [eq]; rfl, by simp⟩
    | false =>
      have cons {l : List (Step α)} (free : ∀ s ∈ l, s.token.isOr = false) :
          ∀ s' ∈ s :: l, s'.token.isOr = false := by
        intro s' mem
        rcases List.mem_cons.mp mem with rfl | mem
        · exact isOr
        · exact free s' mem
      rcases ih with free | ⟨pre, post, rfl, free⟩
      · exact Or.inl (cons free)
      · exact Or.inr ⟨s :: pre, post, rfl, cons free⟩

theorem free_tokens {chain : List (Step α)} (free : ∀ s ∈ chain, s.token.isOr = false) :
    ∀ t ∈ chain.map Step.token, t.isOr = false := by
  intro t mem
  obtain ⟨s, there, rfl⟩ := List.mem_map.mp mem
  exact free s there

/-- What stands before a call can be such that nothing but the call matters. -/
theorem exists_before (tells : Tells v yes no) {pre : List (Step α)}
    (typed : ∀ s ∈ pre, s.wellTyped = true) {after : Bool}
    (accepted : accepts false (pre.map Step.token) = some after) :
    ∃ w n, shapes w = shapes pre ∧ w.map (Step.built v) = readings v w ∧
      Reading.start.read (readings v w) = ⟨false, true, n⟩ := by
  rcases split_last_or pre with free | ⟨first, last, rfl, free⟩
  · obtain ⟨n, eq⟩ := Reading.read_uniform_true false true false (free_tokens free)
    refine ⟨setAll yes no true false pre, n, shapes_setAll true false pre, ?_, ?_⟩
    · rw [builts_setAll tells true false typed, readings_setAll tells true false pre typed]
    · rw [readings_setAll tells true false pre typed]
      exact eq
  · have typedFirst : ∀ s ∈ first, s.wellTyped = true := fun s mem => typed s (by simp [mem])
    have typedLast : ∀ s ∈ last, s.wellTyped = true := fun s mem => typed s (by simp [mem])
    rw [List.map_append, accepts_append] at accepted
    obtain ⟨between, accepted, rest⟩ := accepted
    obtain ⟨_, op, -⟩ := accepts_cons.mp rest
    obtain ⟨c, n, eq, done⟩ := Reading.read_uniform_false true false accepted (by simp)
    obtain ⟨n', eq'⟩ := Reading.read_uniform_true false true false (free_tokens free)
    have ended : between = true := by
      cases between with
      | false => cases op
      | true => rfl
    refine ⟨setAll yes no false false first ++ .or :: setAll yes no true false last, n', ?_, ?_, ?_⟩
    · rw [shapes_append, shapes, shapes_setAll, shapes_setAll, shapes_append, shapes]
    · rw [List.map_append, List.map_cons, readings_append, readings,
        builts_setAll tells false false typedFirst, builts_setAll tells true false typedLast,
        readings_setAll tells false false first typedFirst,
        readings_setAll tells true false last typedLast]
      rfl
    · rw [readings_append, readings, readings_setAll tells false false first typedFirst,
        readings_setAll tells true false last typedLast, Reading.read_append]
      show Reading.read (Reading.read ⟨false, true, false⟩ _) _ = _
      rw [eq, (done ended).1]
      exact eq'

/-- And so can what stands behind it. -/
theorem exists_after (tells : Tells v yes no) {post : List (Step α)}
    (typed : ∀ s ∈ post, s.wellTyped = true)
    (accepted : accepts true (post.map Step.token) = some true) :
    ∃ w, shapes w = shapes post ∧ w.map (Step.built v) = readings v w ∧
      ∀ b, ((⟨false, b, false⟩ : Reading).read (readings v w)).result = b := by
  rcases split_first_or post with free | ⟨first, last, rfl, free⟩
  · refine ⟨setAll yes no true false post, shapes_setAll true false post, ?_, fun b => ?_⟩
    · rw [builts_setAll tells true false typed, readings_setAll tells true false post typed]
    · obtain ⟨n, eq⟩ := Reading.read_uniform_true false b false (free_tokens free)
      rw [readings_setAll tells true false post typed, eq]
      rfl
  · have typedFirst : ∀ s ∈ first, s.wellTyped = true := fun s mem => typed s (by simp [mem])
    have typedLast : ∀ s ∈ last, s.wellTyped = true := fun s mem => typed s (by simp [mem])
    rw [List.map_append, accepts_append] at accepted
    obtain ⟨between, -, rest⟩ := accepted
    obtain ⟨between', op, rest⟩ := accepts_cons.mp rest
    refine ⟨setAll yes no true false first ++ .or :: setAll yes no false false last, ?_, ?_,
      fun b => ?_⟩
    · rw [shapes_append, shapes, shapes_setAll, shapes_setAll, shapes_append, shapes]
    · rw [List.map_append, List.map_cons, readings_append, readings,
        builts_setAll tells true false typedFirst, builts_setAll tells false false typedLast,
        readings_setAll tells true false first typedFirst,
        readings_setAll tells false false last typedLast]
      rfl
    · obtain ⟨n, eq⟩ := Reading.read_uniform_true false b false (free_tokens free)
      rw [readings_append, readings, readings_setAll tells true false first typedFirst,
        readings_setAll tells false false last typedLast, Reading.read_append, eq]
      show (Reading.read ⟨false || b, true, false⟩ _).result = b
      cases b with
      | true => exact Reading.result_of_disjunction rfl _
      | false =>
        have start : between' = false := by
          cases between with
          | false => cases op
          | true => exact (Option.some.inj op).symm
        obtain ⟨c, n', eq', done⟩ := Reading.read_uniform_false true false rest (by simp [start])
        show (Reading.read ⟨false, true, false⟩ _).result = false
        rw [eq', (done rfl).1]
        rfl

/-- The value of the chain is that of the call, up to its negations. -/
theorem exists_around (tells : Tells v yes no) {pre post : List (Step α)} {s : Step α}
    (typed : chainWellTyped false (pre ++ s :: post) = true) (term : s.token = .term ()) :
    ∃ w w' n, shapes w = shapes pre ∧ shapes w' = shapes post ∧
      w.map (Step.built v) = readings v w ∧ w'.map (Step.built v) = readings v w' ∧
      ∀ b, (Reading.start.read (readings v w ++ .term b :: readings v w')).result = (b != n) := by
  have elements := wellTyped_of_mem typed
  have accepted := accepts_of_wellTyped typed
  rw [List.map_append, accepts_append] at accepted
  obtain ⟨between, first, rest⟩ := accepted
  obtain ⟨after, op, rest⟩ := accepts_cons.mp rest
  rw [term] at op
  cases op
  obtain ⟨w, n, shape, built, eq⟩ := exists_before tells (fun s mem => elements s (by simp [mem]))
    first
  obtain ⟨w', shape', built', result⟩ := exists_after tells
    (fun s mem => elements s (by simp [mem])) rest
  refine ⟨w, w', n, shape, shape', built, built', fun b => ?_⟩
  rw [Reading.read_append, eq]
  exact result (b != n)

/-- The call adds a filter that differs from its chain. -/
def Step.Differs (v : α → Bool) (s : Step α) : Prop :=
  ∃ filter, s.tree = some filter ∧ s.token = .term () ∧ s.reading v ≠ .term (filter.value v)

/-- The chain is built to a filter that differs from it. -/
def ChainDiffers (v : α → Bool) (chain : List (Step α)) : Prop :=
  ∃ filter, (runChain {} chain).filter = some filter ∧ filter.value v ≠ chainValue v chain

/-- A chain with a call that differs, if the chain itself is not misread. -/
theorem differs_around (tells : Tells v yes no) {pre post : List (Step α)} {s s' : Step α}
    (typed : chainWellTyped false (pre ++ s :: post) = true)
    (well : misread false (pre ++ s :: post) = false) (same : s'.shape = s.shape)
    (differs : s'.Differs v) :
    ∃ w, shapes w = shapes (pre ++ s :: post) ∧ ChainDiffers v w := by
  obtain ⟨filter, tree, term, ne⟩ := differs
  obtain ⟨w, w', n, shape, shape', built, built', value⟩ :=
    exists_around tells typed ((token_of_shape same).symm.trans term)
  have shapes' : shapes (w ++ s' :: w') = shapes (pre ++ s :: post) := by
    rw [shapes_append, shapes, shape, same, shape', shapes_append, shapes]
  have well' : misread false (w ++ s' :: w') = false := by
    rw [← misread_shapes, shapes', misread_shapes]
    exact well
  obtain ⟨filter', eq, result⟩ :=
    @value_runChain α v false _ (wellTyped_of_shapes shapes' typed) well'
  refine ⟨w ++ s' :: w', shapes', filter', eq, ?_⟩
  obtain ⟨b, reading⟩ : ∃ b, s'.reading v = .term b := by
    cases s' with
    | and => cases term
    | or => cases term
    | not => cases term
    | _ => exact ⟨_, rfl⟩
  rw [reading] at ne
  rw [result, List.map_append, List.map_cons, built, built', built_of_tree term tree, chainValue,
    value_eq_result, readings_append, readings, reading, value]
  show (Reading.start.read _).result ≠ _
  rw [value]
  intro equal
  apply ne
  have agree : filter.value v = b := by
    cases n
    · simpa using equal
    · simpa using equal
  rw [agree]

mutual

theorem exists_call (tells : Tells v yes no) (s : Step α) (typed : s.wellTyped = true)
    (unfaithful : s.faithful = false) : ∃ s' : Step α, s'.shape = s.shape ∧ s'.Differs v := by
  cases s with
  | condition c => cases unfaithful
  | and => cases unfaithful
  | or => cases unfaithful
  | not => cases unfaithful
  | group chain =>
    obtain ⟨w, same, filter, eq, ne⟩ := exists_chain tells chain typed unfaithful
    refine ⟨.group w, by rw [Step.shape, same]; rfl, filter, eq, rfl, fun h => ne ?_⟩
    exact (Token.term.inj h).symm
  | object property chain =>
    obtain ⟨w, same, filter, eq, ne⟩ := exists_chain tells chain typed unfaithful
    refine ⟨.object property w, by rw [Step.shape, same]; rfl, .objectFilter property filter, ?_,
      rfl, fun h => ne ?_⟩
    · rw [Step.tree, eq]
      rfl
    · exact (Token.term.inj h).symm

theorem exists_chain (tells : Tells v yes no) (chain : List (Step α))
    (typed : chainWellTyped false chain = true) (unfaithful : chainFaithful chain = false) :
    ∃ w, shapes w = shapes chain ∧ ChainDiffers v w := by
  cases bad : misread false chain with
  | true =>
    obtain ⟨w, filter, same, eq, holds, fails⟩ := misread_refuted tells false typed bad
    refine ⟨w, same, filter, eq, ?_⟩
    rw [holds, chainValue, value_eq_result]
    exact fun h => Bool.noConfusion (h.trans fails)
  | false =>
    have steps : stepsFaithful chain = false := by simpa [chainFaithful, bad] using unfaithful
    obtain ⟨pre, s, post, eq, s', same, differs⟩ :=
      exists_among tells chain (wellTyped_of_mem typed) steps
    subst eq
    exact differs_around tells typed bad same differs

theorem exists_among (tells : Tells v yes no) (chain : List (Step α))
    (typed : ∀ s ∈ chain, s.wellTyped = true) (unfaithful : stepsFaithful chain = false) :
    ∃ pre s post, chain = pre ++ s :: post ∧ ∃ s' : Step α, s'.shape = s.shape ∧ s'.Differs v := by
  cases chain with
  | nil => cases unfaithful
  | cons s chain =>
    cases first : s.faithful with
    | false => exact ⟨[], s, chain, rfl, exists_call tells s (typed s List.mem_cons_self) first⟩
    | true =>
      have rest : stepsFaithful chain = false := by
        simpa [stepsFaithful, first] using unfaithful
      obtain ⟨pre, s₀, post, eq, differs⟩ :=
        exists_among tells chain (fun s mem => typed s (List.mem_cons_of_mem _ mem)) rest
      exact ⟨s :: pre, s₀, post, by rw [eq]; rfl, differs⟩

end

end

end

/-! ## The filter of the core -/

mutual

theorem coreTruth_buildFilter (v : FilterCondition → Bool) (filter : Filter FilterCondition) :
    coreTruth v (buildFilter filter) = filter.value v := by
  cases filter with
  | condition c => rfl
  | andGroup filters =>
    match filters with
    | [] => rfl
    | [filter] =>
      rw [buildFilter, coreTruth_buildFilter v filter, Filter.value, allValues, allValues,
        Bool.and_true]
    | filter :: next :: filters =>
      exact allTrue_buildFilters v (filter :: next :: filters)
  | orGroup filters =>
    match filters with
    | [] => rfl
    | [filter] =>
      rw [buildFilter, coreTruth_buildFilter v filter, Filter.value, anyValue, anyValue,
        Bool.or_false]
    | filter :: next :: filters =>
      exact anyTrue_buildFilters v (filter :: next :: filters)
  | notGroup filter =>
    rw [buildFilter, coreTruth, coreTruth_buildFilter v filter, Filter.value]
  | objectFilter property filter =>
    rw [buildFilter, coreTruth, coreTruth_buildFilter v filter, Filter.value]

theorem allTrue_buildFilters (v : FilterCondition → Bool)
    (filters : List (Filter FilterCondition)) :
    allTrue v (buildFilters filters) = allValues v filters := by
  cases filters with
  | nil => rfl
  | cons filter filters =>
    rw [buildFilters, allTrue, coreTruth_buildFilter v filter, allTrue_buildFilters v filters,
      allValues]

theorem anyTrue_buildFilters (v : FilterCondition → Bool)
    (filters : List (Filter FilterCondition)) :
    anyTrue v (buildFilters filters) = anyValue v filters := by
  cases filters with
  | nil => rfl
  | cons filter filters =>
    rw [buildFilters, anyTrue, coreTruth_buildFilter v filter, anyTrue_buildFilters v filters,
      anyValue]

end

/-- The filter that is passed to the core has the value of the chain, whatever the values of the
conditions at its leaves are, exactly if the chain is faithful. -/
theorem passedFilter_exact {chain : List (Step FilterCondition)}
    (typed : chainWellTyped false chain = true) :
    (∀ w, shapes w = shapes chain → ∀ v, ∃ filter, passedFilter w = some filter ∧
      coreTruth v filter = chainValue v w) ↔ chainFaithful chain = true := by
  refine ⟨fun h => ?_, fun faithful w same v => ?_⟩
  · by_contra unfaithful
    let yes : FilterCondition := ⟨0, .isNull, [], false⟩
    let no : FilterCondition := ⟨1, .isNull, [], false⟩
    let v : FilterCondition → Bool := fun c => decide (c = yes)
    have tells : Tells v yes no := ⟨by simp [v], by simp [v, yes, no]⟩
    obtain ⟨w, same, filter, eq, ne⟩ :=
      exists_chain tells chain typed (by simpa using unfaithful)
    obtain ⟨passed, eq', value⟩ := h w same v
    rw [passedFilter, eq] at eq'
    cases eq'
    rw [coreTruth_buildFilter] at value
    exact ne value
  · have faithful' : chainFaithful w = true := by
      rw [← chainFaithful_shapes, same, chainFaithful_shapes]
      exact faithful
    obtain ⟨filter, eq, value⟩ := value_of_faithful (wellTyped_of_shapes same typed) faithful'
    exact ⟨buildFilter filter, by rw [passedFilter, eq]; rfl, by rw [coreTruth_buildFilter, value]⟩

def nameIsSimon : FilterCondition := ⟨1, .equal, [some (.string ['S', 'i', 'm', 'o', 'n'])], true⟩
def ageIs20 : FilterCondition := ⟨2, .equal, [some (.integer 20)], true⟩
def ageIs30 : FilterCondition := ⟨2, .equal, [some (.integer 30)], true⟩

/-- A group behind `and` is read as it should be. -/
theorem passedFilter_exact_on_group :
    (∀ w, shapes w =
        shapes [.condition ageIs30, .and, .group [.condition nameIsSimon, .or, .condition ageIs20]] →
      ∀ v, ∃ filter, passedFilter w = some filter ∧ coreTruth v filter = chainValue v w) ↔
    chainFaithful
      [.condition ageIs30, .and, .group [.condition nameIsSimon, .or, .condition ageIs20]] = true :=
  passedFilter_exact rfl

/-- The same group in front of `and`: somebody called Simon who is not 30 is found. -/
theorem group_before_and :
    let chain : List (Step FilterCondition) :=
      [.group [.condition nameIsSimon, .or, .condition ageIs20], .and, .condition ageIs30]
    chainWellTyped false chain = true ∧ ∃ filter, passedFilter chain = some filter ∧
      coreTruth (fun c => decide (c = nameIsSimon)) filter = true ∧
      chainValue (fun c => decide (c = nameIsSimon)) chain = false :=
  ⟨rfl, _, rfl, by decide, by decide⟩

end IsarPlus.Dart
