import IsarPlus.Core.FastWildMatch
import Mathlib.Logic.Relation

/-!
# What the wildcard matcher accepts

The meaning of a pattern, byte by byte, and that the matcher decides it. Its cursors never leave
the two strings, so that it reads nothing behind their ends but that they end there.
-/

namespace IsarPlus

/-- The pattern matches the whole text: an asterisk stands for any sequence of bytes, a question
mark for one byte, and every other byte for itself. -/
inductive WildMatches : Bytes → Bytes → Prop
  | nil : WildMatches [] []
  | asterisk {wild tame : Bytes} (sequence : Bytes) :
      WildMatches wild tame → WildMatches (asterisk :: wild) (sequence ++ tame)
  | questionMark {wild tame : Bytes} (c : UInt8) :
      WildMatches wild tame → WildMatches (questionMark :: wild) (c :: tame)
  | literal {wild tame : Bytes} {c : UInt8} : c ≠ IsarPlus.asterisk → c ≠ IsarPlus.questionMark →
      WildMatches wild tame → WildMatches (c :: wild) (c :: tame)

theorem wildToken_literal {c : UInt8} (noStar : c ≠ asterisk) (noQuestion : c ≠ questionMark) :
    wildToken c = .lit c := by
  rw [wildToken, if_neg noQuestion, if_neg noStar]

theorem accepts_of_wildMatches {wild tame : Bytes} (h : WildMatches wild tame) :
    Glob.accepts (wild.map wildToken) tame = true := by
  induction h with
  | nil => rfl
  | @asterisk wild tame sequence _ ih =>
    exact Glob.accepts_star.mpr ⟨tame, List.suffix_append sequence tame, ih⟩
  | questionMark c _ ih => exact ih
  | literal noStar noQuestion _ ih =>
    rw [List.map_cons, wildToken_literal noStar noQuestion, Glob.accepts_cons (by simp), ih]
    simp [Glob.Token.stands]

theorem wildMatches_of_accepts {wild tame : Bytes}
    (h : Glob.accepts (wild.map wildToken) tame = true) : WildMatches wild tame := by
  induction wild generalizing tame with
  | nil =>
    obtain rfl := Glob.accepts_nil.mp h
    exact .nil
  | cons w wild ih =>
    by_cases star : w = asterisk
    · subst star
      obtain ⟨rest, ⟨sequence, rfl⟩, rest_accepted⟩ := Glob.accepts_star.mp h
      exact .asterisk sequence (ih rest_accepted)
    · have one := FastWildMatch.wildToken_ne_star star
      cases tame with
      | nil =>
        rw [List.map_cons, Glob.accepts_cons_nil one] at h
        cases h
      | cons c tame =>
        rw [List.map_cons, Glob.accepts_cons one, Bool.and_eq_true,
          FastWildMatch.stands_wildToken star] at h
        by_cases question : w = questionMark
        · subst question
          exact .questionMark c (ih h.2)
        · obtain rfl := h.1.resolve_right question
          exact .literal star question (ih h.2)

namespace FastWildMatch

/-- Both cursors are inside their strings or at the end. -/
def Inside (tame wild : Bytes) (s : State) : Prop :=
  s.iTame ≤ tame.length ∧ s.iWild ≤ wild.length

/-- The search finds a symbol of the text. -/
theorem scan_inside {w : UInt8} {text : Bytes} {t found : Nat} (h : scan w text t = some found) :
    found < t + text.length := by
  induction text generalizing t with
  | nil => cases h
  | cons c text ih =>
    rw [scan] at h
    rw [List.length_cons]
    by_cases here : c = w ∨ w = IsarPlus.questionMark
    · rw [if_pos here] at h
      cases h
      omega
    · rw [if_neg here] at h
      have := ih h
      omega

theorem resume_inside {tame wild : Bytes} {s s' : State}
    (h : resume tame wild s = .continue s') (inside : s.iTame ≤ tame.length) :
    Inside tame wild s' := by
  unfold resume at h
  cases at_wild : wild[s.iWild]? with
  | none => simp [at_wild] at h
  | some w =>
    have lt := (List.getElem?_eq_some_iff.mp at_wild).1
    cases search : scan w (tame.drop s.iTame) s.iTame with
    | none => simp [at_wild, search] at h
    | some t =>
      simp only [at_wild, search, Step.continue.injEq] at h
      have found := scan_inside search
      rw [List.length_drop] at found
      subst h
      exact ⟨by show t + 1 ≤ tame.length; omega, lt⟩

/-- A pass leaves the cursors in their strings. -/
theorem step_inside {tame wild : Bytes} {s s' : State} (last : s.iLast ≤ s.iTame)
    (h : step tame wild s = .continue s') : Inside tame wild s' := by
  unfold step at h
  cases symbol : tame[s.iTame]? with
  | none => simp [symbol] at h
  | some c =>
    have lt := (List.getElem?_eq_some_iff.mp symbol).1
    have advanced {w : UInt8} (at_wild : wild[s.iWild]? = some w)
        (h : Step.continue { s with iTame := s.iTame + 1, iWild := s.iWild + 1 } = .continue s') :
        Inside tame wild s' := by
      cases h
      exact ⟨lt, (List.getElem?_eq_some_iff.mp at_wild).1⟩
    simp only [symbol] at h
    by_cases question : wild[s.iWild]? = some IsarPlus.questionMark
    · rw [if_pos question] at h
      exact advanced question h
    rw [if_neg question] at h
    by_cases star : wild[s.iWild]? = some IsarPlus.asterisk
    · rw [if_pos star] at h
      split at h
      · cases h
      · exact resume_inside h (Nat.le_of_lt lt)
    rw [if_neg star] at h
    by_cases literal : some c = wild[s.iWild]?
    · rw [if_pos literal] at h
      exact advanced literal.symm h
    rw [if_neg literal] at h
    split at h
    · cases h
    · exact resume_inside h (Nat.lt_of_le_of_lt last lt)

/-- The locals before the first pass. -/
def start : State := { iTame := 0, iWild := 0, iLast := 0, iStar := 0 }

/-- One pass through the outer loop leads to the next one. -/
def Pass (tame wild : Bytes) (s s' : State) : Prop := step tame wild s = .continue s'

/-- Whatever passes are made, the cursors stay in their strings. -/
theorem passes_inside {tame wild : Bytes} {s : State}
    (passes : Relation.ReflTransGen (Pass tame wild) start s) : Inside tame wild s := by
  have kept : Invariant tame wild s ∧ s.iLast ≤ s.iTame ∧ Inside tame wild s := by
    induction passes with
    | refl => exact ⟨.start rfl rfl, le_rfl, Nat.zero_le _, Nat.zero_le _⟩
    | tail _ pass ih =>
      obtain ⟨inv, last, -⟩ := ih
      obtain ⟨inv', last', -⟩ := (step_spec inv last).2 _ pass
      exact ⟨inv', last', step_inside last pass⟩
  exact kept.2.2

end FastWildMatch

/-- The matcher returns after finitely many passes, in none of which a cursor is behind the end of
its string, and decides whether the pattern matches. -/
theorem fastWildMatch_exact (tame wild : Bytes) :
    (∃ result, fastWildMatch tame wild = some result ∧
      (result = true ↔ WildMatches wild tame)) ∧
    ∀ s, Relation.ReflTransGen (FastWildMatch.Pass tame wild) FastWildMatch.start s →
      s.iTame ≤ tame.length ∧ s.iWild ≤ wild.length := by
  refine ⟨⟨_, fastWildMatch_eq tame wild, ?_⟩, fun s passes => FastWildMatch.passes_inside passes⟩
  constructor
  · intro accepted
    exact wildMatches_of_accepts accepted
  · intro matches_
    exact accepts_of_wildMatches matches_

end IsarPlus
