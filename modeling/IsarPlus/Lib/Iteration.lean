import Mathlib.Data.List.Basic

/-!
# Iterators

An iterator is a state with a call that yields an element or nothing, and leads to another state.
A call is `none` where it does not return. What an iterator yields is said of every single call, so
that it covers the calls after the last element as well.
-/

namespace Iteration

variable {σ α β : Type*}

/-- What the call after `n` others yields. -/
def call (next : σ → Option (Option α × σ)) : Nat → σ → Option (Option α)
  | 0, s => (next s).map Prod.fst
  | n + 1, s => (next s).bind fun r => call next n r.2

/-- The calls yield the elements of the list, one after the other, and then nothing, ever. -/
def Yields (next : σ → Option (Option α × σ)) (s : σ) (elements : List α) : Prop :=
  ∀ n, call next n s = some elements[n]?

section
variable {next : σ → Option (Option α × σ)} {s s' : σ} {a : α} {elements : List α}

theorem call_zero {r : Option α} (eq : next s = some (r, s')) : call next 0 s = some r := by
  rw [call, eq, Option.map_some]

theorem call_succ {r : Option α} (eq : next s = some (r, s')) (n : Nat) :
    call next (n + 1) s = call next n s' := by
  rw [call, eq, Option.bind_some]

/-- One call takes the first element. -/
theorem Yields.uncons (yields : Yields next s elements) :
    ∃ s', next s = some (elements.head?, s') ∧ Yields next s' elements.tail := by
  have first := yields 0
  obtain ⟨⟨r, s'⟩, eq, same⟩ := Option.map_eq_some_iff.mp first
  refine ⟨s', ?_, ?_⟩
  · rw [eq, List.head?_eq_getElem?, ← same]
  · intro n
    rw [List.getElem?_tail, ← call_succ eq n]
    exact yields (n + 1)

/-- What is yielded is known from a set of states that the calls do not leave. -/
theorem Yields.of_invariant {I : σ → List α → Prop}
    (step : ∀ s elements, I s elements →
      ∃ s', next s = some (elements.head?, s') ∧ I s' elements.tail)
    (start : I s elements) : Yields next s elements := by
  intro n
  induction n generalizing s elements with
  | zero =>
    obtain ⟨s', eq, -⟩ := step s elements start
    rw [call_zero eq, List.head?_eq_getElem?]
  | succ n ih =>
    obtain ⟨s', eq, inv⟩ := step s elements start
    rw [call_succ eq, ih inv, List.getElem?_tail]

/-- An iterator yields one list only. -/
theorem Yields.unique {elements' : List α} (yields : Yields next s elements)
    (yields' : Yields next s elements') : elements = elements' := by
  apply List.ext_getElem?
  intro n
  exact Option.some.inj ((yields n).symm.trans (yields' n))

/-- An iterator that only wraps another one yields the same. -/
theorem Yields.wrap {τ : Type*} (wrapped : τ → Option (Option α × τ)) (into : σ → τ)
    (wraps : ∀ s, wrapped (into s) = (next s).map fun r => (r.1, into r.2))
    (yields : Yields next s elements) : Yields wrapped (into s) elements := by
  apply Yields.of_invariant (I := fun t elements => ∃ s, t = into s ∧ Yields next s elements)
  · intro t elements ⟨s, eq, yields⟩
    obtain ⟨s', moved, rest⟩ := yields.uncons
    refine ⟨into s', ?_, s', rfl, rest⟩
    rw [eq, wraps, moved]
    rfl
  · exact ⟨s, rfl, yields⟩

end

/-! ## Collecting -/

/-- All elements up to the first call that yields nothing. -/
def collect (next : σ → Option (Option α × σ)) : Nat → σ → Option (List α)
  | 0, _ => none
  | fuel + 1, s =>
    match next s with
    | some (some a, s') => (collect next fuel s').map (a :: ·)
    | some (none, _) => some []
    | none => none

theorem collect_of_yields {next : σ → Option (Option α × σ)} {s : σ} {elements : List α}
    (yields : Yields next s elements) {fuel : Nat} (enough : elements.length < fuel) :
    collect next fuel s = some elements := by
  induction fuel generalizing s elements with
  | zero => exact absurd enough (Nat.not_lt_zero _)
  | succ fuel ih =>
    obtain ⟨s', eq, rest⟩ := yields.uncons
    rw [collect, eq]
    cases elements with
    | nil => rfl
    | cons a elements =>
      show (collect next fuel s').map (a :: ·) = _
      rw [ih rest (Nat.lt_of_succ_lt_succ enough)]
      rfl

/-! ## Skipping and taking -/

/-- An iterator over the elements of another one that are accepted, without the first `skip` ones
and with no more than `take`. What is accepted can depend on what was seen before. -/
structure Windowed (σ τ : Type*) where
  source : σ
  seen : τ
  skip : Nat
  take : Nat

namespace Windowed

variable {τ : Type*} (next : σ → Option (Option α × σ)) (accept : τ → α → Option (Bool × τ))

/-- The loop over the source up to the next element of the window. -/
def nextElement : Nat → Windowed σ τ → Option (Option α × Windowed σ τ)
  | 0, _ => none
  | fuel + 1, w =>
    match next w.source with
    | none => none
    | some (none, source) => some (none, { w with source })
    | some (some a, source) =>
      match accept w.seen a with
      | none => none
      | some (false, seen) => nextElement fuel { w with source, seen }
      | some (true, seen) =>
        if 0 < w.skip then nextElement fuel { w with source, seen, skip := w.skip - 1 }
        else if 0 < w.take then some (some a, { w with source, seen, take := w.take - 1 })
        else some (none, { w with source, seen })

/-- The elements that are accepted. -/
def accepted : τ → List α → Option (List α)
  | _, [] => some []
  | seen, a :: elements =>
    match accept seen a with
    | none => none
    | some (true, seen) => (accepted seen elements).map (a :: ·)
    | some (false, seen) => accepted seen elements

variable {next accept}

/-- A source with known elements, of which the loop accepts known ones. -/
def Holds (next : σ → Option (Option α × σ)) (accept : τ → α → Option (Bool × τ)) (fuel : Nat)
    (w : Windowed σ τ) (elements : List α) : Prop :=
  ∃ source chosen, Yields next w.source source ∧ source.length < fuel ∧
    accepted accept w.seen source = some chosen ∧ elements = (chosen.drop w.skip).take w.take

theorem step (source : List α) {fuel bound : Nat} {w : Windowed σ τ} {chosen : List α}
    (yields : Yields next w.source source) (enough : source.length < fuel)
    (few : source.length < bound) (accepts : accepted accept w.seen source = some chosen) :
    ∃ w', nextElement next accept fuel w =
        some (((chosen.drop w.skip).take w.take).head?, w') ∧
      Holds next accept bound w' ((chosen.drop w.skip).take w.take).tail := by
  induction source generalizing fuel w chosen with
  | nil =>
    obtain ⟨s', eq, rest⟩ := yields.uncons
    cases accepts
    cases fuel with
    | zero => exact absurd enough (Nat.not_lt_zero _)
    | succ fuel =>
      refine ⟨{ w with source := s' }, ?_, ⟨[], [], rest, few, rfl, by simp⟩⟩
      rw [nextElement, eq]
      simp
  | cons a source ih =>
    obtain ⟨s', eq, rest⟩ := yields.uncons
    cases fuel with
    | zero => exact absurd enough (Nat.not_lt_zero _)
    | succ fuel =>
      have enough' : source.length < fuel := Nat.lt_of_succ_lt_succ enough
      have few' : source.length < bound := Nat.lt_of_succ_lt few
      rw [nextElement, eq]
      unfold accepted at accepts
      rcases verdict : accept w.seen a with _ | ⟨_ | _, seen⟩
      · rw [verdict] at accepts
        cases accepts
      · rw [verdict] at accepts
        obtain ⟨w', found, holds⟩ := @ih fuel { w with source := s', seen } chosen rest enough' few'
          accepts
        exact ⟨w', by simpa [verdict] using found, holds⟩
      · rw [verdict] at accepts
        obtain ⟨others, later, rfl⟩ := Option.map_eq_some_iff.mp accepts
        by_cases skips : 0 < w.skip
        · obtain ⟨w', found, holds⟩ := @ih fuel { w with source := s', seen, skip := w.skip - 1 }
            others rest enough' few' later
          have same : (a :: others).drop w.skip = others.drop (w.skip - 1) := by
            obtain ⟨n, eq⟩ := Nat.exists_eq_add_of_lt skips
            simp [eq]
          rw [same]
          exact ⟨w', by simpa [verdict, skips] using found, holds⟩
        · have none' : w.skip = 0 := by omega
          by_cases takes : 0 < w.take
          · obtain ⟨n, eq'⟩ : ∃ n, w.take = n + 1 := ⟨w.take - 1, by omega⟩
            refine ⟨{ w with source := s', seen, take := w.take - 1 }, ?_,
              ⟨source, others, rest, few', later, ?_⟩⟩
            · simp [verdict, none', eq']
            · simp [none', eq']
          · have zero : w.take = 0 := by omega
            refine ⟨{ w with source := s', seen }, ?_,
              ⟨source, others, rest, few', later, ?_⟩⟩
            · simp [verdict, none', zero]
            · simp [zero]

/-- A window yields the slice of what is accepted, provided that the loop may run to its end. -/
theorem yields {fuel : Nat} {w : Windowed σ τ} {source chosen : List α}
    (yields : Yields next w.source source) (enough : source.length < fuel)
    (accepts : accepted accept w.seen source = some chosen) :
    Yields (nextElement next accept fuel) w ((chosen.drop w.skip).take w.take) := by
  apply Yields.of_invariant (I := Holds next accept fuel)
  · intro w elements ⟨source, chosen, yields, enough, accepts, eq⟩
    subst eq
    exact step source yields enough enough accepts
  · exact ⟨source, chosen, yields, enough, accepts, rfl⟩

end Windowed

/-! ## Lists -/

/-- A list as an iterator. -/
def listNext (elements : List α) : Option (Option α × List α) :=
  some (elements.head?, elements.tail)

theorem yields_listNext (elements : List α) : Yields listNext elements elements := by
  apply Yields.of_invariant (I := Eq)
  · intro s elements eq
    subst eq
    exact ⟨s.tail, rfl, rfl⟩
  · rfl

end Iteration
