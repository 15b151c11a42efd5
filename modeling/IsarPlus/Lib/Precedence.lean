import Mathlib.Data.List.Basic

/-!
# Boolean expressions without parentheses

A list of terms and operators, in which `not` applies to the next term only, `and` binds tighter than
`or`, and terms without an operator between them are joined by `and`. `value` splits the list at its
`or`s; `Reading` is what has to be kept of it while it is read from the left.
-/

namespace IsarPlus.Precedence

inductive Token (α : Type) where
  | term (a : α)
  | and
  | or
  | not
  deriving DecidableEq, Repr

namespace Token
variable {α : Type}

def isOr : Token α → Bool
  | or => true
  | _ => false

/-- What is negated behind a token. -/
def pending (negated : Bool) : Token α → Bool
  | term _ => false
  | not => !negated
  | _ => negated

/-- Whether an operator may follow: `some true` behind a term, `none` if the token may not stand
here. -/
def accept : Bool → Token α → Option Bool
  | _, term _ => some true
  | _, not => some false
  | true, and | true, or => some false
  | false, and | false, or => none

end Token

/-- The terms of a list without `or`, the first of them negated or not. -/
def conjunction (negated : Bool) : List (Token Bool) → Bool
  | [] => true
  | .term b :: tokens => (b != negated) && conjunction false tokens
  | t :: tokens => conjunction (t.pending negated) tokens

/-- What the list says. -/
def value (tokens : List (Token Bool)) : Bool :=
  (tokens.splitOnP Token.isOr).any (conjunction false)

/-! ## Reading from the left -/

/-- The disjunction of what stands before the last `or`, the conjunction of what follows it, and
whether the next term is negated. -/
structure Reading where
  disjunction : Bool
  conjunction : Bool
  negated : Bool
  deriving DecidableEq, Repr

namespace Reading

def start : Reading := ⟨false, true, false⟩

def next (r : Reading) : Token Bool → Reading
  | .term b => ⟨r.disjunction, r.conjunction && (b != r.negated), false⟩
  | .and => r
  | .or => ⟨r.disjunction || r.conjunction, true, false⟩
  | .not => ⟨r.disjunction, r.conjunction, !r.negated⟩

def read (r : Reading) (tokens : List (Token Bool)) : Reading := tokens.foldl next r

def result (r : Reading) : Bool := r.disjunction || r.conjunction

@[simp] theorem read_nil (r : Reading) : r.read [] = r := rfl

@[simp] theorem read_cons (r : Reading) (t : Token Bool) (tokens : List (Token Bool)) :
    r.read (t :: tokens) = (r.next t).read tokens := rfl

theorem read_append (r : Reading) (tokens tokens' : List (Token Bool)) :
    r.read (tokens ++ tokens') = (r.read tokens).read tokens' := List.foldl_append

/-- By induction on the list: what is kept stands for the part that has been read. -/
theorem result_read (r : Reading) (tokens : List (Token Bool)) :
    ∃ head tail, tokens.splitOnP Token.isOr = head :: tail ∧
      (r.read tokens).result = (r.disjunction ||
        (r.conjunction && Precedence.conjunction r.negated head) ||
          tail.any (Precedence.conjunction false)) := by
  induction tokens generalizing r with
  | nil => exact ⟨[], [], rfl, by simp [result, Precedence.conjunction]⟩
  | cons t tokens ih =>
    obtain ⟨head, tail, split, eq⟩ := ih (r.next t)
    rw [List.splitOnP_cons_eq_if_modifyHead, split, read_cons, eq]
    cases t with
    | or =>
      refine ⟨[], head :: tail, rfl, ?_⟩
      simp [next, Precedence.conjunction, Bool.or_assoc]
    | term b =>
      refine ⟨.term b :: head, tail, rfl, ?_⟩
      simp [next, Precedence.conjunction, Bool.and_assoc]
    | and => exact ⟨.and :: head, tail, rfl, rfl⟩
    | not => exact ⟨.not :: head, tail, rfl, rfl⟩

end Reading

theorem value_eq_result (tokens : List (Token Bool)) :
    value tokens = (Reading.start.read tokens).result := by
  obtain ⟨head, tail, split, eq⟩ := Reading.start.result_read tokens
  rw [value, split, eq]
  simp [Reading.start]

/-- A disjunct that holds decides. -/
theorem Reading.result_of_disjunction {r : Reading} (holds : r.disjunction = true)
    (tokens : List (Token Bool)) : (r.read tokens).result = true := by
  obtain ⟨head, tail, -, eq⟩ := r.result_read tokens
  rw [eq, holds]
  rfl

/-! ## Lists whose terms agree -/

/-- The tokens with terms that are all `wanted`, behind their negations. -/
def uniform (wanted negated : Bool) : List (Token Unit) → List (Token Bool)
  | [] => []
  | .term () :: tokens => .term (wanted != negated) :: uniform wanted false tokens
  | .and :: tokens => .and :: uniform wanted negated tokens
  | .or :: tokens => .or :: uniform wanted negated tokens
  | .not :: tokens => .not :: uniform wanted (!negated) tokens

/-- Where the types of the tokens lead. -/
def accepts (after : Bool) (tokens : List (Token Unit)) : Option Bool :=
  tokens.foldlM Token.accept after

theorem accepts_append {after after' : Bool} {tokens tokens' : List (Token Unit)} :
    accepts after (tokens ++ tokens') = some after' ↔
      ∃ between, accepts after tokens = some between ∧ accepts between tokens' = some after' := by
  simp [accepts, List.foldlM_append, Option.bind_eq_some_iff]

theorem accepts_cons {after after' : Bool} {t : Token Unit} {tokens : List (Token Unit)} :
    accepts after (t :: tokens) = some after' ↔
      ∃ between, t.accept after = some between ∧ accepts between tokens = some after' := by
  simp [accepts, Option.bind_eq_some_iff]

namespace Reading

/-- Terms that hold change nothing up to the next `or`. -/
theorem read_uniform_true (d c n : Bool) {tokens : List (Token Unit)}
    (noOr : ∀ t ∈ tokens, t.isOr = false) :
    ∃ n', (⟨d, c, n⟩ : Reading).read (uniform true n tokens) = ⟨d, c, n'⟩ := by
  induction tokens generalizing n with
  | nil => exact ⟨n, rfl⟩
  | cons t tokens ih =>
    have rest (n : Bool) := ih n fun t mem => noOr t (List.mem_cons_of_mem _ mem)
    cases t with
    | term _ =>
      obtain ⟨n', eq⟩ := rest false
      exact ⟨n', by cases n <;> simpa [uniform, next] using eq⟩
    | and => exact rest n
    | or => cases noOr .or List.mem_cons_self
    | not => exact rest (!n)

/-- Where every term holds, the list holds. -/
theorem result_uniform_true (d n : Bool) {after after' : Bool} {tokens : List (Token Unit)}
    (typed : accepts after tokens = some after') (plain : after = true → n = false) :
    ((⟨d, true, n⟩ : Reading).read (uniform true n tokens)).result = true := by
  induction tokens generalizing d n after with
  | nil => simp [uniform, result]
  | cons t tokens ih =>
    obtain ⟨between, first, rest⟩ := accepts_cons.mp typed
    cases t with
    | term _ =>
      have eq := ih d false rest fun _ => rfl
      cases n <;> simpa [uniform, next] using eq
    | and =>
      cases after with
      | false => cases first
      | true =>
        cases first
        exact ih d n rest fun _ => plain rfl
    | or =>
      cases after with
      | false => cases first
      | true =>
        cases first
        have eq := ih (d || true) false rest fun _ => rfl
        rw [plain rfl]
        exact eq
    | not =>
      cases first
      exact ih d (!n) rest (by simp)

/-- Where no term holds, neither does what has been read. -/
theorem read_uniform_false (c n : Bool) {after after' : Bool} {tokens : List (Token Unit)}
    (typed : accepts after tokens = some after')
    (plain : after = true → c = false ∧ n = false) :
    ∃ c' n', (⟨false, c, n⟩ : Reading).read (uniform false n tokens) = ⟨false, c', n'⟩ ∧
      (after' = true → c' = false ∧ n' = false) := by
  induction tokens generalizing c n after with
  | nil =>
    cases typed
    exact ⟨c, n, rfl, plain⟩
  | cons t tokens ih =>
    obtain ⟨between, first, rest⟩ := accepts_cons.mp typed
    cases t with
    | term _ =>
      obtain ⟨c', n', eq, plain'⟩ := ih false false rest fun _ => ⟨rfl, rfl⟩
      exact ⟨c', n', by cases n <;> simpa [uniform, next] using eq, plain'⟩
    | and =>
      cases after with
      | false => cases first
      | true =>
        cases first
        exact ih c n rest (by simp)
    | or =>
      cases after with
      | false => cases first
      | true =>
        cases first
        obtain ⟨rfl, rfl⟩ := plain rfl
        exact ih true false rest (by simp)
    | not =>
      cases first
      exact ih c (!n) rest (by simp)

/-- Terms that do not hold decide what they are joined to by `and`. -/
theorem result_uniform_false {t : Token Unit} {tokens : List (Token Unit)}
    (typed : accepts true (t :: tokens) = some true) (joined : t.isOr = false) :
    ((⟨false, true, false⟩ : Reading).read (uniform false false (t :: tokens))).result = false := by
  have of (c n : Bool) (after : Bool) (plain : after = true → c = false ∧ n = false)
      (rest : accepts after tokens = some true) :
      ((⟨false, c, n⟩ : Reading).read (uniform false n tokens)).result = false := by
    obtain ⟨c', n', eq, done⟩ := read_uniform_false c n rest plain
    rw [eq, (done rfl).1]
    rfl
  obtain ⟨between, first, rest⟩ := accepts_cons.mp typed
  cases t with
  | term _ =>
    cases first
    exact of false false true (fun _ => ⟨rfl, rfl⟩) rest
  | and =>
    cases first
    exact of true false false (by simp) rest
  | or => cases joined
  | not =>
    cases first
    exact of true true false (by simp) rest

end Reading

/-- A list of terms that agree has their value. -/
theorem value_uniform (wanted : Bool) {tokens : List (Token Unit)}
    (typed : accepts false tokens = some true) : value (uniform wanted false tokens) = wanted := by
  rw [value_eq_result]
  cases wanted with
  | true => exact Reading.result_uniform_true false false typed (by simp)
  | false =>
    obtain ⟨c, n, eq, done⟩ := Reading.read_uniform_false true false typed (by simp)
    show ((⟨false, true, false⟩ : Reading).read (uniform false false tokens)).result = false
    rw [eq, (done rfl).1]
    rfl

end IsarPlus.Precedence
