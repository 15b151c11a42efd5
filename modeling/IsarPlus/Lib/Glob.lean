import Mathlib.Data.List.Forall2
import Mathlib.Data.List.Infix

/-!
# Wildcard patterns

Patterns of literals, of a wildcard for exactly one symbol and of one for any sequence of symbols,
over an arbitrary alphabet.
-/

namespace Glob

variable {α : Type*} [DecidableEq α]

/-- One element of a pattern. -/
inductive Token (α : Type*) where
  | lit (a : α)
  | any
  | star
  deriving DecidableEq

/-- The element stands for this one symbol. -/
def Token.stands : Token α → α → Bool
  | lit a, c => c = a
  | any, _ => true
  | star, _ => false

/-- Some suffix of the text satisfies `f`. -/
def anySuffix (f : List α → Bool) : List α → Bool
  | [] => f []
  | c :: t => f (c :: t) || anySuffix f t

/-- The pattern accepts the whole text. -/
def accepts : List (Token α) → List α → Bool
  | [], t => t.isEmpty
  | .star :: p, t => anySuffix (accepts p) t
  | token :: p, c :: t => token.stands c && accepts p t
  | _ :: _, [] => false

omit [DecidableEq α] in
theorem anySuffix_iff {f : List α → Bool} {t : List α} :
    anySuffix f t = true ↔ ∃ s, s <:+ t ∧ f s = true := by
  induction t with
  | nil => simp [anySuffix]
  | cons c t ih =>
    simp only [anySuffix, Bool.or_eq_true, ih, List.suffix_cons_iff]
    constructor
    · rintro (h | ⟨s, suffix, h⟩)
      · exact ⟨c :: t, Or.inl rfl, h⟩
      · exact ⟨s, Or.inr suffix, h⟩
    · rintro ⟨s, rfl | suffix, h⟩
      · exact Or.inl h
      · exact Or.inr ⟨s, suffix, h⟩

theorem accepts_star {p : List (Token α)} {t : List α} :
    accepts (.star :: p) t = true ↔ ∃ s, s <:+ t ∧ accepts p s = true := anySuffix_iff

@[simp] theorem accepts_nil {t : List α} : accepts [] t = true ↔ t = [] := by simp [accepts]

theorem accepts_cons {token : Token α} {p : List (Token α)} {c : α} {t : List α}
    (one : token ≠ .star) :
    accepts (token :: p) (c :: t) = (token.stands c && accepts p t) := by
  cases token <;> first | rfl | contradiction

theorem accepts_cons_nil {token : Token α} {p : List (Token α)} (one : token ≠ .star) :
    accepts (token :: p) [] = false := by
  cases token <;> first | rfl | contradiction

/-- Several stars in a row are one. -/
theorem accepts_star_star {p : List (Token α)} {t : List α} :
    accepts (.star :: .star :: p) t = accepts (.star :: p) t := by
  rw [Bool.eq_iff_iff]
  simp only [accepts_star]
  constructor
  · rintro ⟨s, suffix, s', suffix', h⟩
    exact ⟨s', suffix'.trans suffix, h⟩
  · rintro ⟨s, suffix, h⟩
    exact ⟨s, suffix, s, List.suffix_rfl, h⟩

/-- A star may take in more of the text. -/
theorem accepts_star_mono {p : List (Token α)} {s t : List α} (suffix : s <:+ t)
    (h : accepts (.star :: p) s = true) : accepts (.star :: p) t = true := by
  obtain ⟨s', suffix', h⟩ := accepts_star.mp h
  exact accepts_star.mpr ⟨s', suffix'.trans suffix, h⟩

theorem accepts_star_cons {p : List (Token α)} {c : α} {t : List α} :
    accepts (.star :: p) (c :: t) = (accepts p (c :: t) || accepts (.star :: p) t) := rfl

theorem accepts_star_nil {p : List (Token α)} :
    accepts (.star :: p) ([] : List α) = accepts p [] := rfl

@[simp] theorem accepts_star_only {t : List α} : accepts [.star] t = true :=
  accepts_star.mpr ⟨[], List.nil_suffix, rfl⟩

/-- The elements stand for the symbols one by one. -/
def standsFor : List (Token α) → List α → Prop := List.Forall₂ fun token c => token.stands c = true

theorem standsFor.length_eq {p : List (Token α)} {t : List α} (h : standsFor p t) :
    p.length = t.length := List.Forall₂.length_eq h

theorem standsFor.star_not_mem {p : List (Token α)} {t : List α} (h : standsFor p t) :
    (Token.star : Token α) ∉ p := by
  induction h with
  | nil => simp
  | cons head _ ih =>
    rintro mem
    rcases List.mem_cons.mp mem with rfl | mem
    · cases head
    · exact ih mem

/-- A block of one-symbol elements is matched where it stands. -/
theorem accepts_append {block p : List (Token α)} {s t : List α} (h : standsFor block s) :
    accepts (block ++ p) (s ++ t) = accepts p t := by
  induction h with
  | nil => rfl
  | @cons token c block s head _ ih =>
    have one : token ≠ .star := by rintro rfl; cases head
    rw [List.cons_append, List.cons_append, accepts_cons one, head, Bool.true_and, ih]

/-- What a block of one-symbol elements accepts begins with symbols for which it stands. -/
theorem standsFor_of_accepts {block p : List (Token α)} {t : List α}
    (one : (Token.star : Token α) ∉ block)
    (h : accepts (block ++ p) t = true) :
    ∃ s t', t = s ++ t' ∧ standsFor block s ∧ accepts p t' = true := by
  induction block generalizing t with
  | nil => exact ⟨[], t, rfl, List.Forall₂.nil, h⟩
  | cons token block ih =>
    obtain ⟨ne, one⟩ := List.ne_and_not_mem_of_not_mem_cons one
    cases t with
    | nil => rw [List.cons_append, accepts_cons_nil ne.symm] at h; cases h
    | cons c t =>
      rw [List.cons_append, accepts_cons ne.symm, Bool.and_eq_true] at h
      obtain ⟨s, t', rfl, stands, rest⟩ := ih one h.2
      exact ⟨c :: s, t', rfl, List.Forall₂.cons h.1 stands, rest⟩

/-- Literals alone accept exactly themselves. -/
theorem accepts_lits {v t : List α} : accepts (v.map .lit) t = true ↔ t = v := by
  induction v generalizing t with
  | nil => simp
  | cons a v ih =>
    cases t with
    | nil => simp [accepts]
    | cons c t => simp [accepts, Token.stands, ih]

theorem standsFor_lits {v s : List α} : standsFor (v.map .lit) s ↔ s = v := by
  unfold standsFor
  induction v generalizing s with
  | nil => simp
  | cons a v ih =>
    cases s with
    | nil => simp
    | cons c s => rw [List.map_cons, List.forall₂_cons, ih]; simp [Token.stands]

omit [DecidableEq α] in
private theorem star_not_mem_lits (v : List α) : Token.star ∉ v.map Token.lit := by simp

/-- Literals and a star accept what begins with the literals. -/
theorem accepts_lits_star {v t : List α} :
    accepts (v.map .lit ++ [.star]) t = true ↔ v <+: t := by
  constructor
  · intro h
    obtain ⟨s, t', rfl, stands, -⟩ := standsFor_of_accepts (star_not_mem_lits v) h
    rw [standsFor_lits.mp stands]
    exact List.prefix_append v t'
  · rintro ⟨t', rfl⟩
    rw [accepts_append (standsFor_lits.mpr rfl)]
    exact accepts_star_only

/-- A star and literals accept what ends with the literals. -/
theorem accepts_star_lits {v t : List α} :
    accepts (.star :: v.map .lit) t = true ↔ v <:+ t := by
  rw [accepts_star]
  constructor
  · rintro ⟨s, suffix, h⟩
    exact accepts_lits.mp h ▸ suffix
  · intro h
    exact ⟨v, h, accepts_lits.mpr rfl⟩

/-- Literals between two stars accept what contains the literals. -/
theorem accepts_star_lits_star {v t : List α} :
    accepts (.star :: (v.map .lit ++ [.star])) t = true ↔ v <:+: t := by
  rw [accepts_star]
  constructor
  · rintro ⟨s, suffix, h⟩
    exact (accepts_lits_star.mp h).isInfix.trans suffix.isInfix
  · rintro ⟨x, y, rfl⟩
    exact ⟨v ++ y, ⟨x, by simp⟩, accepts_lits_star.mpr (List.prefix_append v y)⟩

end Glob
