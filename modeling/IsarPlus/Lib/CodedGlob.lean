import IsarPlus.Lib.Glob
import Mathlib.Algebra.Order.Ring.Nat

/-!
# Wildcard patterns over coded texts

A matcher that reads the code units of a text takes a wildcard for one symbol as a wildcard for one
unit. Where the words of the code occur in a coded text only where they were put, that is all that
changes: the literals of the pattern are found at the same places, and only the runs of wildcards
between them measure what they take in units instead of symbols.
-/

namespace Glob

variable {α β : Type*}

/-- The words of the code occur in a coded text only where they were put. -/
def Synchronising (e : α → List β) : Prop :=
  ∀ s x a y, s.flatMap e = x ++ (e a ++ y) →
    ∃ u v, s = u ++ a :: v ∧ u.flatMap e = x ∧ v.flatMap e = y

/-- Words of one unit are a synchronising code. -/
theorem synchronising_singleton : Synchronising fun a : α => [a] := by
  intro s x a y h
  exact ⟨x, y, by simpa using h, by simp, by simp⟩

/-- The elements for the units of an element. -/
def Token.coded (e : α → List β) : Token α → List (Token β)
  | lit a => (e a).map .lit
  | any => [.any]
  | star => [.star]

/-- A run of wildcards that asks for `need` takes in a piece of this size; a run with a star in it
takes in more. -/
def fills (need : Nat) (more : Bool) (size : Nat) : Bool :=
  if more then decide (need ≤ size) else decide (size = need)

section
variable [DecidableEq α] (weight : α → Nat)

/-- The pattern fits the text if a wildcard for one symbol takes in a weight of one. A run of
wildcards has been read before the pattern, as in `fills`. -/
def fits (need : Nat) (more : Bool) : List (Token α) → List α → Bool
  | [], s => fills need more (s.map weight).sum
  | .any :: p, s => fits (need + 1) more p s
  | .star :: p, s => fits need true p s
  | .lit a :: p, s => (List.range s.length).any fun i =>
      s[i]? = some a && fills need more ((s.take i).map weight).sum &&
        fits 0 false p (s.drop (i + 1))

variable {weight}

/-- A literal stands somewhere behind the run of wildcards before it. -/
theorem fits_lit {need : Nat} {more : Bool} {a : α} {p : List (Token α)} {s : List α} :
    fits weight need more (.lit a :: p) s = true ↔
      ∃ u v, s = u ++ a :: v ∧ fills need more (u.map weight).sum = true ∧
        fits weight 0 false p v = true := by
  rw [fits, List.any_eq_true]
  constructor
  · rintro ⟨i, inside, h⟩
    simp only [Bool.and_eq_true, decide_eq_true_eq] at h
    obtain ⟨⟨found, taken⟩, rest⟩ := h
    refine ⟨s.take i, s.drop (i + 1), ?_, taken, rest⟩
    obtain ⟨bound, rfl⟩ := List.getElem?_eq_some_iff.mp found
    simp
  · rintro ⟨u, v, rfl, taken, rest⟩
    exact ⟨u.length, by simp, by simp [taken, rest]⟩

omit [DecidableEq α] in
theorem fills_zero (pos : ∀ a, 0 < weight a) {more : Bool} {t : List α} :
    fills 0 more (t.map weight).sum = (more || t.isEmpty) := by
  cases more with
  | true => simp [fills]
  | false =>
    cases t with
    | nil => simp [fills]
    | cons a t =>
      have := pos a
      simp [fills]
      omega

/-- Without wildcards for one symbol nothing is measured but whether it is empty. -/
theorem fits_of_any_not_mem {weight' : α → Nat} (pos : ∀ a, 0 < weight a)
    (pos' : ∀ a, 0 < weight' a) {more : Bool} {p : List (Token α)} {s : List α}
    (free : Token.any ∉ p) : fits weight 0 more p s = fits weight' 0 more p s := by
  induction p generalizing more s with
  | nil => rw [fits, fits, fills_zero pos, fills_zero pos']
  | cons token p ih =>
    obtain ⟨ne, free'⟩ := List.ne_and_not_mem_of_not_mem_cons free
    cases token with
    | any => contradiction
    | star => exact ih free'
    | lit a =>
      rw [fits, fits]
      congr 1
      funext i
      rw [fills_zero pos, fills_zero pos', ih free']

end

section
variable [DecidableEq α] [DecidableEq β] {e : α → List β}

theorem accepts_any {p : List (Token β)} {t : List β} :
    accepts (.any :: p) t = true ↔ ∃ c t', t = c :: t' ∧ accepts p t' = true := by
  cases t with
  | nil => simp [accepts]
  | cons c t => simp [accepts, Token.stands]

theorem accepts_word {w : List β} {p : List (Token β)} {t : List β} :
    accepts (w.map .lit ++ p) t = true ↔ ∃ t', t = w ++ t' ∧ accepts p t' = true := by
  constructor
  · intro h
    obtain ⟨s, t', rfl, stands, rest⟩ := standsFor_of_accepts (by simp) h
    exact ⟨t', by rw [standsFor_lits.mp stands], rest⟩
  · rintro ⟨t', rfl, h⟩
    rwa [accepts_append (standsFor_lits.mpr rfl)]

/-- What a coded pattern accepts behind a run of wildcards. -/
theorem accepts_coded_iff (sync : Synchronising e) {need : Nat} {more : Bool} {p : List (Token α)}
    {s : List α} :
    (∃ x y, s.flatMap e = x ++ y ∧ fills need more x.length = true ∧
      accepts (p.flatMap (Token.coded e)) y = true) ↔
      fits (fun a => (e a).length) need more p s = true := by
  induction p generalizing need more s with
  | nil =>
    simp only [List.flatMap_nil, accepts_nil, fits, ← List.length_flatMap]
    constructor
    · rintro ⟨x, y, split, taken, rfl⟩
      rwa [split, List.append_nil]
    · intro taken
      exact ⟨_, [], (List.append_nil _).symm, taken, rfl⟩
  | cons token p ih =>
    rw [List.flatMap_cons]
    cases token with
    | any =>
      rw [fits, ← ih]
      constructor
      · rintro ⟨x, y, split, taken, h⟩
        obtain ⟨c, y, rfl, h⟩ := accepts_any.mp h
        refine ⟨x ++ [c], y, by simpa using split, ?_, h⟩
        cases more <;> simpa [fills] using taken
      · rintro ⟨x, y, split, taken, h⟩
        have nonempty : x ≠ [] := by
          rintro rfl
          cases more <;> simp [fills] at taken
        obtain ⟨x, c, rfl⟩ := List.eq_nil_or_concat x |>.resolve_left nonempty
        refine ⟨x, c :: y, by simpa using split, ?_, accepts_any.mpr ⟨c, y, rfl, h⟩⟩
        cases more <;> simpa [fills] using taken
    | star =>
      rw [fits, ← ih]
      constructor
      · rintro ⟨x, y, split, taken, h⟩
        obtain ⟨y', ⟨z, rfl⟩, h'⟩ := accepts_star.mp h
        refine ⟨x ++ z, y', by simpa using split, ?_, h'⟩
        cases more <;> simp [fills] at taken ⊢ <;> omega
      · rintro ⟨x, y, split, taken, h⟩
        have enough : need ≤ x.length := by simpa [fills] using taken
        refine ⟨x.take need, x.drop need ++ y, by simp [split, ← List.append_assoc], ?_,
          accepts_star.mpr ⟨y, List.suffix_append _ _, h⟩⟩
        cases more <;> simp [fills, enough]
    | lit a =>
      rw [fits_lit]
      constructor
      · rintro ⟨x, y, split, taken, h⟩
        obtain ⟨y', rfl, h'⟩ := accepts_word.mp h
        obtain ⟨u, v, rfl, rfl, rfl⟩ := sync _ _ _ _ split
        exact ⟨u, v, rfl, by rwa [← List.length_flatMap], ih.mp ⟨[], _, rfl, rfl, h'⟩⟩
      · rintro ⟨u, v, rfl, taken, rest⟩
        obtain ⟨x, y, split, taken', h⟩ := ih.mpr rest
        have empty : x = [] := by simpa [fills] using taken'
        subst empty
        refine ⟨u.flatMap e, e a ++ v.flatMap e, by simp, by rwa [List.length_flatMap],
          accepts_word.mpr ⟨_, rfl, ?_⟩⟩
        rwa [split]

/-- A coded pattern accepts a coded text if and only if the pattern fits the text with the lengths
of the words for weights. -/
theorem accepts_coded (sync : Synchronising e) {p : List (Token α)} {s : List α} :
    accepts (p.flatMap (Token.coded e)) (s.flatMap e) =
      fits (fun a => (e a).length) 0 false p s := by
  rw [Bool.eq_iff_iff, ← accepts_coded_iff sync]
  constructor
  · intro h
    exact ⟨[], _, rfl, rfl, h⟩
  · rintro ⟨x, y, split, taken, h⟩
    have empty : x = [] := by simpa [fills] using taken
    subst empty
    rwa [split]

/-- A pattern accepts what it fits with every symbol of weight one. -/
theorem accepts_eq_fits {p : List (Token α)} {s : List α} :
    accepts p s = fits (fun _ => 1) 0 false p s := by
  have coded : p.flatMap (Token.coded fun a => [a]) = p := by
    induction p with
    | nil => rfl
    | cons token p ih =>
      rw [List.flatMap_cons, ih]
      cases token <;> rfl
  have same := @accepts_coded α α _ _ _ synchronising_singleton p s
  rwa [coded, List.flatMap_singleton'] at same

/-- Without wildcards for one symbol a coded pattern accepts the coded texts that it should. -/
theorem accepts_coded_of_any_not_mem (sync : Synchronising e) (nonempty : ∀ a, e a ≠ [])
    {p : List (Token α)} {s : List α} (free : Token.any ∉ p) :
    accepts (p.flatMap (Token.coded e)) (s.flatMap e) = accepts p s := by
  rw [accepts_coded sync, accepts_eq_fits, fits_of_any_not_mem _ (fun _ => Nat.one_pos) free]
  exact fun a => List.length_pos_iff.mpr (nonempty a)

end

end Glob
