import Mathlib.Data.List.Lex
import Mathlib.Order.Cover

/-!
# Extending a list in the lexicographic order

Where a list stands against `p ++ [c]` and against the same list with another last element. No list
has an immediate predecessor or successor of its own length in this order: what lies between
`p ++ [c]` and `p ++ [d]`, for `d` right above `c`, are the proper extensions of `p ++ [c]`.
-/

namespace Lexicographic

variable {α : Type} [LinearOrder α]

theorem append_lt_append_iff (p : List α) {x y : List α} : p ++ x < p ++ y ↔ x < y := by
  induction p with
  | nil => rfl
  | cons a p ih => simp [ih]

theorem append_le_append_iff (p : List α) {x y : List α} : p ++ x ≤ p ++ y ↔ x ≤ y := by
  rw [← not_lt, append_lt_append_iff, not_lt]

theorem nil_le (s : List α) : [] ≤ s := not_lt.mp (List.not_lt_nil s)

theorem le_append (s t : List α) : s ≤ s ++ t := by
  have := (append_le_append_iff s).mpr (nil_le t)
  rwa [List.append_nil] at this

theorem lt_append {s t : List α} (h : t ≠ []) : s < s ++ t :=
  lt_of_le_of_ne (le_append s t) fun eq => h (by simpa using eq)

omit [LinearOrder α] in
theorem append_eq_append_iff_of_length {x y s t : List α} (length : x.length = y.length) :
    x ++ s = y ++ t ↔ x = y ∧ s = t := by
  constructor
  · intro h
    exact List.append_inj h length
  · rintro ⟨rfl, rfl⟩
    rfl

/-- Behind heads of one length the order is that of the heads, then that of the tails. -/
theorem append_lt_append_iff_of_length {x y s t : List α} (length : x.length = y.length) :
    x ++ s < y ++ t ↔ x < y ∨ x = y ∧ s < t := by
  induction x generalizing y with
  | nil =>
    obtain rfl := List.eq_nil_of_length_eq_zero length.symm
    simp
  | cons a x ih =>
    cases y with
    | nil => simp at length
    | cons b y =>
      simp only [List.cons_append, List.cons_lt_cons_iff, List.cons.injEq,
        ih (Nat.succ_injective length)]
      tauto

/-- Whatever starts with `p ++ [c]` stands below `p ++ [d]` for a greater `d`. -/
theorem lt_of_extends {p s : List α} {c d : α} (lt : c < d) (h : p ++ [c] <+: s) :
    s < p ++ [d] := by
  obtain ⟨t, rfl⟩ := h
  rw [List.append_assoc, append_lt_append_iff]
  exact List.cons_lt_cons_iff.mpr (Or.inl lt)

/-- A list above `p ++ [c]` is a proper extension of it or not below `p ++ [d]`. -/
theorem extends_or_le {p s : List α} {c d : α} (cover : c ⋖ d) (h : p ++ [c] < s) :
    p ++ [c] <+: s ∨ p ++ [d] ≤ s := by
  induction p generalizing s with
  | nil =>
    cases s with
    | nil => exact absurd h (List.not_lt_nil _)
    | cons x t =>
      rcases List.cons_lt_cons_iff.mp h with lt | ⟨rfl, -⟩
      · rcases (cover.ge_of_gt lt).lt_or_eq with lt | rfl
        · exact Or.inr (List.cons_lt_cons_iff.mpr (Or.inl lt)).le
        · exact Or.inr (le_append [d] t)
      · exact Or.inl ⟨t, rfl⟩
  | cons a p ih =>
    cases s with
    | nil => exact absurd h (List.not_lt_nil _)
    | cons x t =>
      rcases List.cons_lt_cons_iff.mp h with lt | ⟨rfl, lt⟩
      · exact Or.inr (List.cons_lt_cons_iff.mpr (Or.inl lt)).le
      · rcases ih lt with start | le
        · exact Or.inl (List.cons_prefix_cons.mpr ⟨rfl, start⟩)
        · exact Or.inr ((append_le_append_iff [a]).mpr le)

/-- Moving a strict lower bound to the next last element loses the proper extensions. -/
theorem lt_iff_le_iff {p s : List α} {c d : α} (cover : c ⋖ d) :
    (p ++ [c] < s ↔ p ++ [d] ≤ s) ↔ ¬ (p ++ [c] <+: s ∧ s ≠ p ++ [c]) := by
  constructor
  · rintro same ⟨start, ne⟩
    obtain ⟨t, rfl⟩ := start
    have nonempty : t ≠ [] := fun eq => ne (by rw [eq, List.append_nil])
    exact absurd (same.mp (lt_append nonempty)) (not_le.mpr (lt_of_extends cover.lt ⟨t, rfl⟩))
  · intro proper
    constructor
    · intro lt
      exact (extends_or_le cover lt).resolve_left fun start => proper ⟨start, lt.ne'⟩
    · intro le
      exact lt_of_lt_of_le (lt_of_extends cover.lt ⟨[], by simp⟩) le

/-- Right below `p ++ [c]`, for the least `c`, stands `p`. -/
theorem lt_append_least_iff {p s : List α} {c : α} (least : ∀ x, c ≤ x) : s < p ++ [c] ↔ s ≤ p := by
  constructor
  · intro lt
    by_contra above
    have lt' := not_le.mp above
    clear above
    induction p generalizing s with
    | nil =>
      cases s with
      | nil => exact lt_irrefl _ lt'
      | cons x t =>
        rcases List.cons_lt_cons_iff.mp lt with lt | ⟨-, lt⟩
        · exact not_lt.mpr (least x) lt
        · exact List.not_lt_nil _ lt
    | cons a p ih =>
      cases s with
      | nil => exact List.not_lt_nil _ lt'
      | cons x t =>
        rcases List.cons_lt_cons_iff.mp lt with less | ⟨rfl, rest⟩ <;>
          rcases List.cons_lt_cons_iff.mp lt' with less' | ⟨eq, rest'⟩
        · exact lt_asymm less less'
        · exact less.ne eq.symm
        · exact lt_irrefl _ less'
        · exact ih rest rest'
  · intro le
    exact lt_of_le_of_lt le (lt_append (List.cons_ne_nil c []))

theorem cons_le_cons_iff {a d : α} {p t : List α} : a :: p ≤ d :: t ↔ a < d ∨ a = d ∧ p ≤ t := by
  rw [← not_lt, List.cons_lt_cons_iff, not_or, not_and, not_lt, le_iff_lt_or_eq]
  constructor
  · rintro ⟨lt | rfl, rest⟩
    · exact Or.inl lt
    · exact Or.inr ⟨rfl, not_lt.mp (rest rfl)⟩
  · rintro (lt | ⟨rfl, le⟩)
    · exact ⟨Or.inl lt, fun same => absurd same lt.ne'⟩
    · exact ⟨Or.inr rfl, fun _ => not_lt.mpr le⟩

/-- Between `p` and `p ++ [c]`, for the greatest `c`, are the extensions of `p` but for those that
go on behind that `c`. -/
theorem between_greatest_iff {p s : List α} {c : α} (greatest : ∀ x, x ≤ c) :
    p ≤ s ∧ s ≤ p ++ [c] ↔ p <+: s ∧ (p ++ [c] <+: s → s = p ++ [c]) := by
  induction p generalizing s with
  | nil =>
    cases s with
    | nil => simp [nil_le]
    | cons d t =>
      rcases (greatest d).lt_or_eq with lt | rfl
      · simp [nil_le, cons_le_cons_iff, lt, lt.ne']
      · have nothing : t ≤ [] ↔ t = [] := by
          rw [le_antisymm_iff, and_iff_left (nil_le t)]
        simp [nil_le, cons_le_cons_iff, nothing]
  | cons a p ih =>
    cases s with
    | nil => simp
    | cons d t =>
      simp only [List.cons_append, cons_le_cons_iff, List.cons_prefix_cons, List.cons.injEq]
      constructor
      · rintro ⟨above, below⟩
        have same : a = d := by
          rcases above with lt | ⟨same, -⟩
          · rcases below with lt' | ⟨same, -⟩
            · exact absurd lt' lt.asymm
            · exact same.symm
          · exact same
        subst same
        have both := ih.mp ⟨by simpa using above, by simpa using below⟩
        exact ⟨⟨rfl, both.1⟩, fun h => ⟨rfl, both.2 h.2⟩⟩
      · rintro ⟨⟨rfl, within⟩, extension⟩
        have both := ih.mpr ⟨within, fun h => (extension ⟨rfl, h⟩).2⟩
        exact ⟨Or.inr ⟨rfl, both.1⟩, Or.inr ⟨rfl, both.2⟩⟩

end Lexicographic
