import IsarPlus.Lib.ByteBuffer
import IsarPlus.Lib.Glob

/-!
# The wildcard matcher

`isar_core/src/core/fast_wild_match.rs`: a single pass over both strings that goes back to the
last `*` when the symbols after it do not match. It works on bytes, so that its `?` is one byte.
-/

namespace IsarPlus

/-- `ASTERISK` and `QUESTION_MARK` (`fast_wild_match.rs:1-2`). -/
def asterisk : UInt8 := 42
def questionMark : UInt8 := 63

namespace FastWildMatch
open Glob

/-- The local variables of the matcher (`fast_wild_match.rs:7-10`). -/
structure State where
  iTame : Nat
  iWild : Nat
  iLast : Nat
  iStar : Nat

/-- How one pass through the body of the outer loop ends. -/
inductive Step where
  | return (result : Bool)
  | continue (s : State)

/-- The index behind the asterisks that start at `i`. -/
def skipStars (wild : Bytes) (i : Nat) : Nat :=
  i + ((wild.drop i).takeWhile (· = asterisk)).length

/-- The inner search (`fast_wild_match.rs:44-49`) for `w` in what is left of the text, whose first
symbol has index `t`. -/
def scan (w : UInt8) : Bytes → Nat → Option Nat
  | [], _ => none
  | c :: rest, t => if c = w ∨ w = questionMark then some t else scan w rest (t + 1)

/-- The end of the loop body (`fast_wild_match.rs:44-52`). -/
def resume (tame wild : Bytes) (s : State) : Step :=
  match wild[s.iWild]? with
  | some w =>
    match scan w (tame.drop s.iTame) s.iTame with
    | some t => .continue { s with iLast := t, iTame := t + 1, iWild := s.iWild + 1 }
    | none => .return false
  | none => .return false

/-- One pass through the outer loop; at the end of the text the asterisks left are skipped. -/
def step (tame wild : Bytes) (s : State) : Step :=
  match tame[s.iTame]? with
  | none => .return (wild[skipStars wild s.iWild]?).isNone
  | some c =>
    if wild[s.iWild]? = some questionMark then
      .continue { s with iTame := s.iTame + 1, iWild := s.iWild + 1 }
    else if wild[s.iWild]? = some asterisk then
      let iWild := skipStars wild (s.iWild + 1)
      if (wild[iWild]?).isNone then .return true
      else resume tame wild { s with iWild, iStar := iWild }
    else if some c = wild[s.iWild]? then
      .continue { s with iTame := s.iTame + 1, iWild := s.iWild + 1 }
    else if s.iStar = 0 then .return false
    else resume tame wild { s with iWild := s.iStar, iTame := s.iLast + 1 }

def loop (tame wild : Bytes) : Nat → State → Option Bool
  | 0, _ => none
  | fuel + 1, s =>
    match step tame wild s with
    | .return result => some result
    | .continue s => loop tame wild fuel s

end FastWildMatch

/-- `fast_wild_match` (`fast_wild_match.rs:4-59`); the bound on the passes is never reached
(`fastWildMatch_eq`). -/
def fastWildMatch (tame wild : Bytes) : Option Bool :=
  FastWildMatch.loop tame wild ((tame.length + 1) * (tame.length + 1))
    { iTame := 0, iWild := 0, iLast := 0, iStar := 0 }

/-- A pattern byte as the matcher reads it. -/
def wildToken (b : UInt8) : Glob.Token UInt8 :=
  if b = questionMark then .any else if b = asterisk then .star else .lit b

namespace FastWildMatch
open Glob

/-- The pattern from index `i` on. -/
def patternFrom (wild : Bytes) (i : Nat) : List (Token UInt8) := (wild.drop i).map wildToken

theorem wildToken_asterisk : wildToken asterisk = .star := rfl

theorem wildToken_ne_star {w : UInt8} (h : w ≠ asterisk) : wildToken w ≠ .star := by
  unfold wildToken
  rw [if_neg h]
  split <;> simp

theorem stands_wildToken {w c : UInt8} (h : w ≠ asterisk) :
    (wildToken w).stands c = true ↔ c = w ∨ w = questionMark := by
  unfold wildToken
  rw [if_neg h]
  split
  · rename_i question
    simp [Token.stands, question]
  · rename_i literal
    simp [Token.stands, literal]

theorem patternFrom_of_getElem? {wild : Bytes} {i : Nat} {w : UInt8} (h : wild[i]? = some w) :
    patternFrom wild i = wildToken w :: patternFrom wild (i + 1) := by
  obtain ⟨bound, rfl⟩ := List.getElem?_eq_some_iff.mp h
  rw [patternFrom, List.drop_eq_getElem_cons bound, List.map_cons]
  rfl

theorem patternFrom_of_none {wild : Bytes} {i : Nat} (h : wild[i]? = none) :
    patternFrom wild i = [] := by
  rw [patternFrom, List.drop_eq_nil_of_le (List.getElem?_eq_none_iff.mp h), List.map_nil]

theorem drop_skipStars (wild : Bytes) (i : Nat) :
    wild.drop (skipStars wild i) = (wild.drop i).dropWhile (· = asterisk) := by
  have split := @List.takeWhile_append_dropWhile _ (· = asterisk) (wild.drop i)
  rw [skipStars, ← List.drop_drop]
  conv => lhs; arg 2; rw [← split]
  exact List.drop_left

/-- Skipping asterisks behind an asterisk does not change what the pattern accepts. -/
theorem accepts_skipStars (wild t : Bytes) (i : Nat) :
    accepts (.star :: patternFrom wild i) t =
      accepts (.star :: patternFrom wild (skipStars wild i)) t := by
  unfold patternFrom
  rw [drop_skipStars]
  induction wild.drop i with
  | nil => rfl
  | cons w ws ih =>
    by_cases h : w = asterisk
    · subst h
      rw [List.dropWhile_cons_of_pos (by simp), List.map_cons, wildToken_asterisk,
        accepts_star_star, ih]
    · rw [List.dropWhile_cons_of_neg (by simpa using h)]

/-- The asterisk skipping stops before a symbol that is none. -/
theorem getElem?_skipStars (wild : Bytes) (i : Nat) : wild[skipStars wild i]? ≠ some asterisk := by
  have head : wild[skipStars wild i]? = ((wild.drop i).dropWhile (· = asterisk)).head? := by
    rw [← drop_skipStars, List.head?_drop]
  rw [head]
  intro h
  have := List.head?_dropWhile_not (fun w => decide (w = asterisk)) (wild.drop i)
  simp [h] at this

/-- At the end of the text the rest of the pattern accepts if it is asterisks only. -/
theorem accepts_empty (wild : Bytes) (i : Nat) :
    accepts (patternFrom wild i) [] = (wild[skipStars wild i]?).isNone := by
  rw [← List.head?_drop, drop_skipStars, patternFrom]
  induction wild.drop i with
  | nil => rfl
  | cons w ws ih =>
    by_cases h : w = asterisk
    · subst h
      rw [List.dropWhile_cons_of_pos (by simp), List.map_cons, wildToken_asterisk,
        accepts_star_nil, ih]
    · rw [List.dropWhile_cons_of_neg (by simpa using h), List.map_cons,
        accepts_cons_nil (wildToken_ne_star h)]
      rfl

/-- The inner search finds the first symbol at which the block behind a star can start. -/
theorem scan_spec {w : UInt8} (literal : w ≠ asterisk) {rest : Bytes} {t t' : Nat}
    (h : scan w rest t = some t') :
    ∃ skipped c rest', rest = skipped ++ c :: rest' ∧ t' = t + skipped.length ∧
      (wildToken w).stands c = true ∧ ∀ p, accepts (.star :: wildToken w :: p) rest =
        accepts (.star :: wildToken w :: p) (c :: rest') := by
  induction rest generalizing t with
  | nil => cases h
  | cons c rest ih =>
    simp only [scan] at h
    split at h
    · rename_i found
      obtain rfl := Option.some.inj h
      exact ⟨[], c, rest, rfl, rfl, (stands_wildToken literal).mpr found, fun _ => rfl⟩
    · rename_i differs
      obtain ⟨skipped, c', rest', rfl, rfl, stands, same⟩ := ih h
      refine ⟨c :: skipped, c', rest', rfl, by simp; omega, stands, fun p => ?_⟩
      have mismatch : (wildToken w).stands c = false := by
        rw [Bool.eq_false_iff, ne_eq, stands_wildToken literal]
        exact differs
      rw [accepts_star_cons, accepts_cons (wildToken_ne_star literal), mismatch, Bool.false_and,
        Bool.false_or, same]

theorem scan_none {w : UInt8} (literal : w ≠ asterisk) {rest : Bytes} {t : Nat}
    (h : scan w rest t = none) (p : List (Token UInt8)) :
    accepts (.star :: wildToken w :: p) rest = false := by
  induction rest generalizing t with
  | nil => rw [accepts_star_nil, accepts_cons_nil (wildToken_ne_star literal)]
  | cons c rest ih =>
    simp only [scan] at h
    split at h
    · cases h
    · rename_i differs
      have mismatch : (wildToken w).stands c = false := by
        rw [Bool.eq_false_iff, ne_eq, stands_wildToken literal]
        exact differs
      rw [accepts_star_cons, accepts_cons (wildToken_ne_star literal), mismatch, Bool.false_and,
        Bool.false_or, ih h]

/-! ## The loop -/

/-- What every pass keeps: without a star so far the rest of the pattern has to accept the rest of
the text; with one, the block behind the last star stands for the symbols from `iLast` on, and
`iLast` is the first place where it can. -/
inductive Invariant (tame wild : Bytes) (s : State) : Prop where
  | start (noStar : s.iStar = 0)
      (whole : accepts (patternFrom wild 0) tame =
        accepts (patternFrom wild s.iWild) (tame.drop s.iTame))
  | star (block : List (Token UInt8)) (read : Bytes) (hasStar : s.iStar ≠ 0)
      (nonempty : block ≠ [])
      (pattern : patternFrom wild s.iStar = block ++ patternFrom wild s.iWild)
      (text : tame.drop s.iLast = read ++ tame.drop s.iTame)
      (stands : standsFor block read)
      (whole : accepts (patternFrom wild 0) tame =
        accepts (.star :: patternFrom wild s.iStar) (tame.drop s.iLast))

/-- Where a block accepts a later part of what it has been matched with, what is left is a later
part as well. -/
theorem exists_suffix_of_block {block p : List (Token UInt8)} {read t s : Bytes}
    (stands : standsFor block read) (suffix : s <:+ read ++ t)
    (h : accepts (block ++ p) s = true) : ∃ t', t' <:+ t ∧ accepts p t' = true := by
  obtain ⟨s₁, t', rfl, stands', h⟩ := standsFor_of_accepts stands.star_not_mem h
  refine ⟨t', ?_, h⟩
  have short : t'.length ≤ t.length := by
    have := suffix.length_le
    have := stands.length_eq
    have := stands'.length_eq
    simp only [List.length_append] at *
    omega
  exact List.suffix_of_suffix_length_le ((List.suffix_append s₁ t').trans suffix)
    (List.suffix_append read t) short

/-- Where a block has been matched as early as possible, a star behind it may start there. -/
theorem accepts_star_block {block p : List (Token UInt8)} {read t : Bytes}
    (stands : standsFor block read) :
    accepts (.star :: (block ++ .star :: p)) (read ++ t) = accepts (.star :: p) t := by
  rw [Bool.eq_iff_iff]
  constructor
  · intro h
    obtain ⟨s, suffix, h⟩ := accepts_star.mp h
    obtain ⟨t', suffix', h⟩ := exists_suffix_of_block stands suffix h
    exact accepts_star_mono suffix' h
  · intro h
    exact accepts_star.mpr ⟨read ++ t, List.suffix_rfl, by rw [accepts_append stands, h]⟩

/-- At the end of the text a block that has been matched stays where it is. -/
theorem accepts_star_block_end {block p : List (Token UInt8)} {read : Bytes}
    (stands : standsFor block read) :
    accepts (.star :: (block ++ p)) read = accepts p [] := by
  rw [Bool.eq_iff_iff]
  constructor
  · intro h
    obtain ⟨s, suffix, h⟩ := accepts_star.mp h
    obtain ⟨t', suffix', h⟩ := exists_suffix_of_block stands
      (show s <:+ read ++ [] by simpa using suffix) h
    exact List.suffix_nil.mp suffix' ▸ h
  · intro h
    refine accepts_star.mpr ⟨read, List.suffix_rfl, ?_⟩
    rw [← List.append_nil read, accepts_append stands, h]

/-- The rest of the pattern starts with a star. -/
theorem Invariant.star_next {tame wild : Bytes} {s : State} (inv : Invariant tame wild s)
    {p : List (Token UInt8)} (next : patternFrom wild s.iWild = .star :: p) :
    accepts (patternFrom wild 0) tame = accepts (.star :: p) (tame.drop s.iTame) := by
  cases inv with
  | start noStar whole => rw [whole, next]
  | star block read hasStar nonempty pattern text stands whole =>
    rw [whole, pattern, text, next, accepts_star_block stands]

/-- The text is at its end. -/
theorem Invariant.text_end {tame wild : Bytes} {s : State} (inv : Invariant tame wild s)
    (ended : tame.drop s.iTame = []) :
    accepts (patternFrom wild 0) tame = accepts (patternFrom wild s.iWild) [] := by
  cases inv with
  | start noStar whole => rw [whole, ended]
  | star block read hasStar nonempty pattern text stands whole =>
    rw [whole, pattern, text, ended, List.append_nil, accepts_star_block_end stands]

/-- The next pattern symbol stands for the next symbol of the text. -/
theorem Invariant.advance {tame wild : Bytes} {s : State} (inv : Invariant tame wild s)
    {token : Token UInt8} {c : UInt8} (stands : token.stands c = true)
    (pattern : patternFrom wild s.iWild = token :: patternFrom wild (s.iWild + 1))
    (text : tame.drop s.iTame = c :: tame.drop (s.iTame + 1)) :
    Invariant tame wild { s with iTame := s.iTame + 1, iWild := s.iWild + 1 } := by
  have one : token ≠ .star := by rintro rfl; cases stands
  cases inv with
  | start noStar whole =>
    refine .start noStar ?_
    rw [whole, pattern, text, accepts_cons one, stands, Bool.true_and]
  | star block read hasStar nonempty pattern' text' stands' whole =>
    refine .star (block ++ [token]) (read ++ [c]) hasStar (by simp) ?_ ?_ ?_ whole
    · rw [pattern', pattern]
      simp
    · rw [text', text]
      simp
    · exact List.rel_append stands' (List.Forall₂.cons stands List.Forall₂.nil)

/-- The rest of the pattern does not accept the rest of the text: without a star nothing matches,
and with one the block behind it has to start later. -/
theorem Invariant.mismatch {tame wild : Bytes} {s : State} (inv : Invariant tame wild s)
    (fails : accepts (patternFrom wild s.iWild) (tame.drop s.iTame) = false) :
    (s.iStar = 0 → accepts (patternFrom wild 0) tame = false) ∧
    (s.iStar ≠ 0 → (∃ token p, patternFrom wild s.iStar = token :: p ∧ token ≠ .star) ∧
      accepts (patternFrom wild 0) tame =
        accepts (.star :: patternFrom wild s.iStar) (tame.drop (s.iLast + 1))) := by
  cases inv with
  | start noStar whole => exact ⟨fun _ => whole.trans fails, fun hasStar => absurd noStar hasStar⟩
  | star block read hasStar nonempty pattern text stands whole =>
    refine ⟨fun noStar => absurd noStar hasStar, fun _ => ?_⟩
    cases stands with
    | nil => exact absurd rfl nonempty
    | @cons token c block read head tail =>
      refine ⟨⟨token, block ++ patternFrom wild s.iWild, by simpa using pattern, ?_⟩, ?_⟩
      · rintro rfl
        cases head
      · have here : accepts (patternFrom wild s.iStar) (tame.drop s.iLast) = false := by
          rw [pattern, text, accepts_append (List.Forall₂.cons head tail), fails]
        have later : tame.drop (s.iLast + 1) = read ++ tame.drop s.iTame := by
          rw [← List.drop_drop, text]
          rfl
        rw [whole, later]
        rw [text, List.cons_append] at here ⊢
        rw [accepts_star_cons, here, Bool.false_or]

/-- The search behind a star ends the matching or reaches a state of the invariant further on. -/
theorem resume_spec {tame wild : Bytes} {s : State} {w : UInt8} (hasStar : s.iStar ≠ 0)
    (same : s.iWild = s.iStar) (symbol : wild[s.iWild]? = some w) (literal : w ≠ asterisk)
    (whole : accepts (patternFrom wild 0) tame =
      accepts (.star :: patternFrom wild s.iWild) (tame.drop s.iTame)) :
    (∀ result, resume tame wild s = .return result →
      result = accepts (patternFrom wild 0) tame) ∧
    ∀ s', resume tame wild s = .continue s' → Invariant tame wild s' ∧
      s.iTame ≤ s'.iLast ∧ s'.iLast < tame.length ∧ s'.iTame = s'.iLast + 1 := by
  have pattern := patternFrom_of_getElem? symbol
  rw [pattern] at whole
  cases search : scan w (tame.drop s.iTame) s.iTame with
  | none =>
    have ended : resume tame wild s = .return false := by simp only [resume, symbol, search]
    simp only [ended, Step.return.injEq, reduceCtorEq, false_implies, implies_true, and_true]
    rintro result rfl
    rw [whole, scan_none literal search]
  | some t =>
    have resumed : resume tame wild s =
        .continue { s with iLast := t, iTame := t + 1, iWild := s.iWild + 1 } := by
      simp only [resume, symbol, search]
    simp only [resumed, reduceCtorEq, false_implies, implies_true, true_and, Step.continue.injEq]
    rintro s' rfl
    obtain ⟨skipped, c, rest, text, rfl, stands, found⟩ := scan_spec literal search
    have dropped : tame.drop (s.iTame + skipped.length) = c :: rest := by
      rw [← List.drop_drop, text, List.drop_left]
    have dropped' : tame.drop (s.iTame + skipped.length + 1) = rest := by
      rw [← List.drop_drop, dropped]
      rfl
    refine ⟨.star [wildToken w] [c] hasStar (by simp) ?_ ?_ ?_ ?_, Nat.le_add_right .., ?_, rfl⟩
    · rw [← same]
      exact pattern
    · simp only [dropped, dropped', List.cons_append, List.nil_append]
    · exact List.Forall₂.cons stands List.Forall₂.nil
    · rw [whole, found, ← same, pattern, dropped]
    · have : (c :: rest).length = tame.length - (s.iTame + skipped.length) := by
        rw [← dropped, List.length_drop]
      simp only [List.length_cons] at this ⊢
      omega

/-- The passes that are left at most. -/
def bound (tame : Bytes) (s : State) : Nat :=
  (tame.length - s.iLast) * (tame.length + 1) + (tame.length - s.iTame)

/-- One pass decides the match or keeps the invariant and lowers the bound. -/
theorem step_spec {tame wild : Bytes} {s : State} (inv : Invariant tame wild s)
    (last : s.iLast ≤ s.iTame) :
    (∀ result, step tame wild s = .return result → result = accepts (patternFrom wild 0) tame) ∧
    ∀ s', step tame wild s = .continue s' → Invariant tame wild s' ∧ s'.iLast ≤ s'.iTame ∧
      bound tame s' < bound tame s := by
  unfold step
  cases symbol : tame[s.iTame]? with
  | none =>
    simp only [Step.return.injEq, reduceCtorEq, false_implies, implies_true, and_true]
    rintro result rfl
    rw [inv.text_end (List.drop_eq_nil_of_le (List.getElem?_eq_none_iff.mp symbol)), accepts_empty]
  | some c =>
    obtain ⟨inside, rfl⟩ := List.getElem?_eq_some_iff.mp symbol
    have text := List.drop_eq_getElem_cons inside
    have advanced {w : UInt8} (at_wild : wild[s.iWild]? = some w)
        (stands : (wildToken w).stands tame[s.iTame] = true) :
        Invariant tame wild { s with iTame := s.iTame + 1, iWild := s.iWild + 1 } ∧
          s.iLast ≤ s.iTame + 1 ∧
          bound tame { s with iTame := s.iTame + 1, iWild := s.iWild + 1 } < bound tame s := by
      refine ⟨inv.advance stands (patternFrom_of_getElem? at_wild) text, by omega, ?_⟩
      simp only [bound]
      omega
    have lower {s' : State} (further : s.iLast < s'.iLast ∨ (s.iLast ≤ s'.iLast ∧
        s.iTame < s'.iTame)) (within : s'.iLast < tame.length) : bound tame s' < bound tame s := by
      simp only [bound]
      rcases further with further | ⟨last', further⟩
      · have : (tame.length - s'.iLast + 1) * (tame.length + 1) ≤
            (tame.length - s.iLast) * (tame.length + 1) :=
          Nat.mul_le_mul_right _ (by omega)
        rw [Nat.add_mul] at this
        omega
      · have : (tame.length - s'.iLast) * (tame.length + 1) ≤
            (tame.length - s.iLast) * (tame.length + 1) :=
          Nat.mul_le_mul_right _ (by omega)
        omega
    have resumed {r : State} {w : UInt8} (hasStar : r.iStar ≠ 0) (same : r.iWild = r.iStar)
        (at_wild : wild[r.iWild]? = some w) (literal : w ≠ asterisk)
        (whole : accepts (patternFrom wild 0) tame =
          accepts (.star :: patternFrom wild r.iWild) (tame.drop r.iTame))
        (further : s.iLast < r.iTame ∨ (s.iLast ≤ r.iTame ∧ s.iTame ≤ r.iTame)) :
        (∀ result, resume tame wild r = .return result →
          result = accepts (patternFrom wild 0) tame) ∧
        ∀ s', resume tame wild r = .continue s' → Invariant tame wild s' ∧ s'.iLast ≤ s'.iTame ∧
          bound tame s' < bound tame s := by
      obtain ⟨returns, continues⟩ := resume_spec hasStar same at_wild literal whole
      refine ⟨returns, fun s' h => ?_⟩
      obtain ⟨inv', found, within, next⟩ := continues s' h
      exact ⟨inv', by omega, lower (by omega) within⟩
    dsimp only
    by_cases question : wild[s.iWild]? = some questionMark
    · simp only [if_pos question, reduceCtorEq, false_implies, implies_true, true_and,
        Step.continue.injEq]
      rintro s' rfl
      exact advanced question ((stands_wildToken (by decide)).mpr (Or.inr rfl))
    rw [if_neg question]
    by_cases star : wild[s.iWild]? = some asterisk
    · have whole : accepts (patternFrom wild 0) tame =
          accepts (.star :: patternFrom wild (skipStars wild (s.iWild + 1)))
            (tame.drop s.iTame) := by
        rw [← accepts_skipStars]
        exact inv.star_next (patternFrom_of_getElem? star)
      rw [if_pos star]
      cases behind : wild[skipStars wild (s.iWild + 1)]? with
      | none =>
        simp only [Option.isNone_none, if_true, Step.return.injEq, reduceCtorEq, false_implies,
          implies_true, and_true]
        rintro result rfl
        rw [whole, patternFrom_of_none behind, accepts_star_only]
      | some w =>
        have literal : w ≠ asterisk := fun eq => getElem?_skipStars wild _ (eq ▸ behind)
        have positive : skipStars wild (s.iWild + 1) ≠ 0 := by
          unfold skipStars
          omega
        exact resumed positive rfl behind literal whole (Or.inr ⟨last, le_rfl⟩)
    rw [if_neg star]
    by_cases literal : some tame[s.iTame] = wild[s.iWild]?
    · simp only [if_pos literal, reduceCtorEq, false_implies, implies_true, true_and,
        Step.continue.injEq]
      rintro s' rfl
      have noStar : tame[s.iTame] ≠ asterisk := fun eq => star (by rw [← literal, eq])
      exact advanced literal.symm ((stands_wildToken noStar).mpr (Or.inl rfl))
    rw [if_neg literal]
    have fails : accepts (patternFrom wild s.iWild) (tame.drop s.iTame) = false := by
      cases at_wild : wild[s.iWild]? with
      | none =>
        rw [patternFrom_of_none at_wild, text]
        rfl
      | some w =>
        have noStar : w ≠ asterisk := fun eq => star (eq ▸ at_wild)
        have differs : ¬ (tame[s.iTame] = w ∨ w = questionMark) := by
          rintro (eq | eq)
          · exact literal (by rw [at_wild, eq])
          · exact question (eq ▸ at_wild)
        have mismatch : (wildToken w).stands tame[s.iTame] = false := by
          rwa [Bool.eq_false_iff, ne_eq, stands_wildToken noStar]
        rw [patternFrom_of_getElem? at_wild, text, accepts_cons (wildToken_ne_star noStar), mismatch,
          Bool.false_and]
    obtain ⟨without, behind⟩ := inv.mismatch fails
    by_cases noStar : s.iStar = 0
    · simp only [if_pos noStar, Step.return.injEq, reduceCtorEq, false_implies, implies_true,
        and_true]
      rintro result rfl
      exact (without noStar).symm
    · rw [if_neg noStar]
      obtain ⟨⟨token, p, pattern, one⟩, whole⟩ := behind noStar
      cases at_star : wild[s.iStar]? with
      | none => rw [patternFrom_of_none at_star] at pattern; cases pattern
      | some w =>
        have literal : w ≠ asterisk := by
          rintro rfl
          rw [patternFrom_of_getElem? at_star, List.cons.injEq] at pattern
          exact one (pattern.1 ▸ wildToken_asterisk)
        exact resumed noStar rfl at_star literal whole (Or.inl (Nat.lt_succ_self _))

theorem loop_eq {tame wild : Bytes} {fuel : Nat} {s : State} (inv : Invariant tame wild s)
    (last : s.iLast ≤ s.iTame) (enough : bound tame s < fuel) :
    loop tame wild fuel s = some (accepts (patternFrom wild 0) tame) := by
  induction fuel generalizing s with
  | zero => omega
  | succ fuel ih =>
    obtain ⟨returns, continues⟩ := step_spec inv last
    rw [loop]
    cases h : step tame wild s with
    | «return» result => rw [returns result h]
    | «continue» s' =>
      obtain ⟨inv', last', lower⟩ := continues s' h
      exact ih inv' last' (by omega)

end FastWildMatch

open Glob in
/-- The matcher returns, and accepts the texts that its pattern accepts byte by byte. -/
theorem fastWildMatch_eq (tame wild : Bytes) :
    fastWildMatch tame wild = some (accepts (wild.map wildToken) tame) := by
  have start : FastWildMatch.Invariant tame wild { iTame := 0, iWild := 0, iLast := 0, iStar := 0 } :=
    .start rfl rfl
  refine (FastWildMatch.loop_eq start le_rfl ?_).trans ?_
  · simp [FastWildMatch.bound, Nat.add_mul]
  · simp [FastWildMatch.patternFrom]

end IsarPlus
