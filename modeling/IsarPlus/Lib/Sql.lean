import IsarPlus.Lib.Glob
import IsarPlus.Lib.Scalar
import Mathlib.Data.List.Lex
import Mathlib.Data.List.TakeWhile
import Mathlib.Data.Prod.Lex
import Mathlib.Data.Char
import Mathlib.Order.Compare

/-!
# SQL conditions

The conditions of a `WHERE` clause in the SQL dialect of SQLite: their tokens, a parser with the
precedence of the language, and evaluation in three-valued logic. A parameter carries a value of an
arbitrary type `α`; what it is bound to, and what an application-defined function makes of it, is
part of the environment. Names are tokens: nothing here depends on how an identifier is spelled.
-/

namespace Sql
open Scalar

/-! ## Values -/

/-- The storage classes. -/
inductive Value where
  | null
  | integer (value : Int64)
  | real (value : F64)
  | text (value : List Char)
  | blob (value : List UInt8)
  deriving DecidableEq, Repr

/-- The 26 letters of ASCII folded. -/
def noCase (s : List Char) : List Char := s.map Char.toLower

/-- The length of a text in bytes. -/
def utf8Length (s : List Char) : Nat := (s.map Char.utf8Size).sum

/-- A text as far as functions of C read it: up to the first `U+0000`. -/
def cString (s : List Char) : List Char := s.takeWhile (· ≠ '\u0000')

/-- What `COLLATE NOCASE` compares (`nocaseCollatingFunc`): the folded text up to the first `U+0000`,
then the length. -/
def noCaseKey (s : List Char) : List Char ×ₗ Nat := toLex (noCase (cString s), utf8Length s)

/-- The finite value of a float times `2 ^ 1074`; the infinities are beyond every integer. -/
def scaled (v : F64) : Int :=
  let exponent := v.magnitude / 2 ^ 52
  let fraction := v.magnitude % 2 ^ 52
  let mantissa := if exponent = 0 then fraction else 2 ^ 52 + fraction
  (if v.isNegative then -1 else 1) * (mantissa * 2 ^ (max exponent 1 - 1) : Nat)

/-- How two values compare; null compares with nothing. Numbers come before texts and texts before
blobs. -/
def Value.compare (nocase : Bool) : Value → Value → Option Ordering
  | .null, _ | _, .null => none
  | .integer a, .integer b => some (cmp a.toInt b.toInt)
  | .integer a, .real b => some (cmp (a.toInt * 2 ^ 1074) (scaled b))
  | .real a, .integer b => some (cmp (scaled a) (b.toInt * 2 ^ 1074))
  | .real a, .real b => some (cmp a.rank b.rank)
  | .text a, .text b => some (if nocase then cmp (noCaseKey a) (noCaseKey b) else cmp a b)
  | .blob a, .blob b => some (cmp a b)
  | .integer _, _ | .real _, _ => some .lt
  | _, .integer _ | _, .real _ => some .gt
  | .text _, .blob _ => some .lt
  | .blob _, .text _ => some .gt

/-- The comparison operators. -/
inductive Comparison where
  | eq | gt | ge | lt | le
  deriving DecidableEq, Repr

/-- The outcomes for which the operator holds. -/
def Comparison.test : Comparison → Ordering → Bool
  | eq, o => o == .eq
  | gt, o => o == .gt
  | ge, o => o != .lt
  | lt, o => o == .lt
  | le, o => o != .gt

/-! ## Expressions -/

/-- A column or a parameter, possibly with `COLLATE NOCASE`. -/
structure Operand (α : Type) where
  source : String ⊕ α
  nocase : Bool
  deriving DecidableEq

/-- Conditions. -/
inductive Expr (α : Type) where
  | truth (value : Bool)
  | compare (op : Comparison) (left right : Operand α)
  | isNull (operand : Operand α)
  | isNotNull (operand : Operand α)
  | between (operand lower upper : Operand α)
  | like (operand pattern : Operand α) (escape : Char)
  | call (function column : String) (argument : α)
  | not (e : Expr α)
  | and (e e' : Expr α)
  | or (e e' : Expr α)
  deriving DecidableEq

/-- What a condition is evaluated in: the row, the values bound to the parameters, the text that a
value is converted to, and the application-defined functions. -/
structure Env (α : Type) where
  column : String → Value
  value : α → Value
  text : Value → List Char
  call : String → Value → α → Option Bool

/-- `AND` in three-valued logic; `none` is `NULL`. -/
def and3 : Option Bool → Option Bool → Option Bool
  | some false, _ | _, some false => some false
  | some true, some true => some true
  | _, _ => none

/-- `OR` in three-valued logic. -/
def or3 : Option Bool → Option Bool → Option Bool
  | some true, _ | _, some true => some true
  | some false, some false => some false
  | _, _ => none

/-- The elements of a `LIKE` pattern; nothing is like a pattern with a dangling escape. -/
def likeTokens (escape : Char) : List Char → Option (List (Glob.Token Char))
  | [] => some []
  | c :: pattern =>
    if c = escape then
      match pattern with
      | [] => none
      | d :: pattern => (likeTokens escape pattern).map (.lit d :: ·)
    else
      let token := if c = '%' then .star else if c = '_' then .any else .lit c
      (likeTokens escape pattern).map (token :: ·)

/-- What the UTF-8 reader of SQLite makes of a character (`READ_UTF8`). -/
def readChar (c : Char) : Char := if c = '\uFFFE' ∨ c = '\uFFFF' then '\uFFFD' else c

/-- The characters that `LIKE` reads of a text. -/
def readText (s : List Char) : List Char := (cString s).map readChar

/-- An element of a pattern as `LIKE` reads it. -/
def readToken : Glob.Token Char → Glob.Token Char
  | .lit c => .lit (readChar c)
  | token => token

/-- The elements that `LIKE` reads of a pattern. -/
def readTokens (pattern : List (Glob.Token Char)) : List (Glob.Token Char) :=
  (pattern.takeWhile (· ≠ .lit '\u0000')).map readToken

/-- The characters that every reader of SQLite takes for themselves. -/
def Legible (c : Char) : Prop := c ≠ '\u0000' ∧ c ≠ '\uFFFE' ∧ c ≠ '\uFFFF'

theorem readText_of_legible {s : List Char} (legible : ∀ c ∈ s, Legible c) : readText s = s := by
  have whole : cString s = s :=
    List.takeWhile_eq_self_iff.mpr fun c mem => decide_eq_true (legible c mem).1
  rw [readText, whole]
  refine List.map_congr_left (fun c mem => ?_) |>.trans (List.map_id s)
  exact if_neg (not_or.mpr (legible c mem).2)

theorem readTokens_of_legible {pattern : List (Glob.Token Char)}
    (legible : ∀ c, .lit c ∈ pattern → Legible c) : readTokens pattern = pattern := by
  have whole : pattern.takeWhile (· ≠ .lit '\u0000') = pattern := by
    refine List.takeWhile_eq_self_iff.mpr fun token mem => decide_eq_true ?_
    rintro rfl
    exact (legible _ mem).1 rfl
  rw [readTokens, whole]
  refine List.map_congr_left (fun token mem => ?_) |>.trans (List.map_id pattern)
  cases token with
  | lit c => exact congrArg Glob.Token.lit (if_neg (not_or.mpr (legible c mem).2))
  | _ => rfl

/-- `SQLITE_MAX_LIKE_PATTERN_LENGTH`, in bytes. -/
def maxLikePatternLength : Nat := 50000

/-- `LIKE` where it distinguishes case (`likeFunc`): `%` stands for any sequence of characters and `_`
for one character. A pattern that is too long is an error; like null, it selects no row. -/
def like (escape : Char) (pattern s : List Char) : Option Bool :=
  if maxLikePatternLength < utf8Length pattern then none
  else
    match likeTokens escape (readText pattern) with
    | some tokens => some (Glob.accepts tokens (readText s))
    | none => some false

namespace Env

variable {α : Type} (env : Env α)

def operand (o : Operand α) : Value :=
  match o.source with
  | .inl column => env.column column
  | .inr parameter => env.value parameter

/-- A comparison takes the collation of the operand that names one. -/
def compare (op : Comparison) (left right : Operand α) : Option Bool :=
  ((env.operand left).compare (left.nocase || right.nocase) (env.operand right)).map op.test

/-- The value of a condition, `none` for `NULL`. -/
def eval : Expr α → Option Bool
  | .truth value => some value
  | .compare op left right => env.compare op left right
  | .isNull o => some (env.operand o == .null)
  | .isNotNull o => some (env.operand o != .null)
  | .between o lower upper => and3 (env.compare .ge o lower) (env.compare .le o upper)
  | .like o pattern escape =>
    if env.operand o = .null ∨ env.operand pattern = .null then none
    else Sql.like escape (env.text (env.operand pattern)) (env.text (env.operand o))
  | .call function column argument => env.call function (env.column column) argument
  | .not e => (eval e).map Bool.not
  | .and e e' => and3 (eval e) (eval e')
  | .or e e' => or3 (eval e) (eval e')

end Env

/-! ## Texts -/

inductive Token where
  | name (s : String)
  | placeholder
  | op (o : Comparison)
  | and | or | not | is | null | between | like | escape (c : Char) | collateNocase
  | truth (b : Bool)
  | lparen | rparen | comma
  deriving DecidableEq, Repr

/-- A text together with the parameters of its placeholders, in their order. -/
structure Text (α : Type) where
  tokens : List Token
  params : List α
  deriving DecidableEq

instance {α : Type} : Append (Text α) :=
  ⟨fun a b => ⟨a.tokens ++ b.tokens, a.params ++ b.params⟩⟩

section
variable {α : Type}

/-- A column or a parameter; `COLLATE` binds tightest. -/
def parseOperand : Text α → Option (Operand α × Text α)
  | ⟨.name s :: .collateNocase :: ts, as⟩ => some (⟨.inl s, true⟩, ⟨ts, as⟩)
  | ⟨.name s :: ts, as⟩ => some (⟨.inl s, false⟩, ⟨ts, as⟩)
  | ⟨.placeholder :: .collateNocase :: ts, a :: as⟩ => some (⟨.inr a, true⟩, ⟨ts, as⟩)
  | ⟨.placeholder :: ts, a :: as⟩ => some (⟨.inr a, false⟩, ⟨ts, as⟩)
  | _ => none

/-- The comparisons; the `AND` of a `BETWEEN` belongs to it. -/
def parsePredicate (text : Text α) : Option (Expr α × Text α) := do
  let (left, text) ← parseOperand text
  match text with
  | ⟨.op o :: ts, as⟩ =>
    let (right, text) ← parseOperand ⟨ts, as⟩
    pure (.compare o left right, text)
  | ⟨.is :: .null :: ts, as⟩ => pure (.isNull left, ⟨ts, as⟩)
  | ⟨.is :: .not :: .null :: ts, as⟩ => pure (.isNotNull left, ⟨ts, as⟩)
  | ⟨.between :: ts, as⟩ =>
    let (lower, text) ← parseOperand ⟨ts, as⟩
    match text with
    | ⟨.and :: ts, as⟩ =>
      let (upper, text) ← parseOperand ⟨ts, as⟩
      pure (.between left lower upper, text)
    | _ => none
  | ⟨.like :: ts, as⟩ =>
    let (pattern, text) ← parseOperand ⟨ts, as⟩
    match text with
    | ⟨.escape c :: ts, as⟩ => pure (.like left pattern c, ⟨ts, as⟩)
    | _ => none
  | _ => none

mutual

/-- The lowest level: `OR`. `OR` and `AND` are associative, so a chain may nest to the right. -/
def parseOr : Nat → Text α → Option (Expr α × Text α)
  | 0, _ => none
  | fuel + 1, text => do
    let (e, text) ← parseAnd fuel text
    match text with
    | ⟨.or :: ts, as⟩ =>
      let (e', text) ← parseOr fuel ⟨ts, as⟩
      pure (.or e e', text)
    | text => pure (e, text)

/-- `AND` binds tighter than `OR`. -/
def parseAnd : Nat → Text α → Option (Expr α × Text α)
  | 0, _ => none
  | fuel + 1, text => do
    let (e, text) ← parseNot fuel text
    match text with
    | ⟨.and :: ts, as⟩ =>
      let (e', text) ← parseAnd fuel ⟨ts, as⟩
      pure (.and e e', text)
    | text => pure (e, text)

/-- `NOT` binds tighter than `AND`, and comparisons tighter than `NOT`. -/
def parseNot : Nat → Text α → Option (Expr α × Text α)
  | 0, _ => none
  | fuel + 1, ⟨.not :: ts, as⟩ => do
    let (e, text) ← parseNot fuel ⟨ts, as⟩
    pure (.not e, text)
  | fuel + 1, ⟨.lparen :: ts, as⟩ => do
    let (e, text) ← parseOr fuel ⟨ts, as⟩
    match text with
    | ⟨.rparen :: ts, as⟩ => pure (e, ⟨ts, as⟩)
    | _ => none
  | _ + 1, ⟨.truth b :: ts, as⟩ => pure (.truth b, ⟨ts, as⟩)
  | _ + 1, ⟨.name f :: .lparen :: .name column :: .comma :: .placeholder :: .rparen :: ts,
      a :: as⟩ => pure (.call f column a, ⟨ts, as⟩)
  | _ + 1, text => parsePredicate text

end

/-- The condition that a whole text spells. -/
def parse (text : Text α) : Option (Expr α) :=
  match parseOr (4 * text.tokens.length + 4) text with
  | some (e, ⟨[], []⟩) => some e
  | _ => none

/-- The value of a text on a row: `none` if it is not a condition of the language, `some none` for
`NULL`. -/
def run (env : Env α) (text : Text α) : Option (Option Bool) := (parse text).map env.eval

/-! ## What a text spells -/

@[simp] theorem tokens_append (a b : Text α) : (a ++ b).tokens = a.tokens ++ b.tokens := rfl
@[simp] theorem params_append (a b : Text α) : (a ++ b).params = a.params ++ b.params := rfl

theorem mk_append (ts us : List Token) (as bs : List α) :
    Text.mk ts as ++ Text.mk us bs = ⟨ts ++ us, as ++ bs⟩ := rfl

theorem append_assoc (a b c : Text α) : a ++ b ++ c = a ++ (b ++ c) := by
  cases a
  cases b
  cases c
  simp [mk_append]

@[simp] theorem append_nil (a : Text α) : a ++ ⟨[], []⟩ = a := by
  cases a
  simp [mk_append]

/-- A text of a single token without a parameter. -/
def word (t : Token) : Text α := ⟨[t], []⟩

@[simp] theorem tokens_word (t : Token) : (word t : Text α).tokens = [t] := rfl

theorem word_append (t : Token) (a : Text α) : word t ++ a = ⟨t :: a.tokens, a.params⟩ := rfl

theorem parseNot_not (fuel : Nat) (text : Text α) :
    parseNot (fuel + 1) (word .not ++ text) =
      (parseNot fuel text).bind fun (e, rest) => some (.not e, rest) := by
  rw [word_append, parseNot]
  rfl

theorem parseNot_lparen (fuel : Nat) (text : Text α) :
    parseNot (fuel + 1) (word .lparen ++ text) =
      (parseOr fuel text).bind fun (e, rest) =>
        match rest with
        | ⟨.rparen :: ts, as⟩ => some (e, ⟨ts, as⟩)
        | _ => none := by
  rw [word_append, parseNot]
  rfl

variable (env : Env α)

/-- The text spells a condition with the value `v` wherever one at the level of `NOT` is expected. -/
def SpellsNot (text : Text α) (v : Option Bool) : Prop :=
  ∀ fuel rest, 4 * text.tokens.length ≤ fuel → rest.tokens.head? ≠ some .collateNocase →
    ∃ e, parseNot fuel (text ++ rest) = some (e, rest) ∧ env.eval e = v

/-- A chain of conditions joined by `AND`. -/
inductive SpellsAnd : Text α → Option Bool → Prop
  | single {text : Text α} {v : Option Bool} : SpellsNot env text v → SpellsAnd text v
  | chain {a b : Text α} {v w : Option Bool} : SpellsNot env a v → SpellsAnd b w →
      SpellsAnd (a ++ word .and ++ b) (and3 v w)

/-- A chain of conditions joined by `OR`. -/
inductive SpellsOr : Text α → Option Bool → Prop
  | single {text : Text α} {v : Option Bool} : SpellsAnd env text v → SpellsOr text v
  | chain {a b : Text α} {v w : Option Bool} : SpellsAnd env a v → SpellsOr b w →
      SpellsOr (a ++ word .or ++ b) (or3 v w)

variable {env} {a b text : Text α} {v w : Option Bool}

theorem or3_assoc (u v w : Option Bool) : or3 (or3 u v) w = or3 u (or3 v w) := by
  rcases u with _ | _ | _ <;> rcases v with _ | _ | _ <;> rcases w with _ | _ | _ <;> rfl

theorem and3_assoc (u v w : Option Bool) : and3 (and3 u v) w = and3 u (and3 v w) := by
  rcases u with _ | _ | _ <;> rcases v with _ | _ | _ <;> rcases w with _ | _ | _ <;> rfl

theorem SpellsAnd.parse (h : SpellsAnd env text v) (rest : Text α) {fuel : Nat}
    (enough : 4 * text.tokens.length + 1 ≤ fuel)
    (follows : rest.tokens.head? ∉ [some .collateNocase, some .and]) :
    ∃ e, parseAnd fuel (text ++ rest) = some (e, rest) ∧ env.eval e = v := by
  simp only [List.mem_cons, List.not_mem_nil, or_false, not_or] at follows
  induction h generalizing fuel with
  | single spells =>
    obtain ⟨fuel, rfl⟩ := Nat.exists_eq_add_of_le' (Nat.le_of_add_left_le enough)
    obtain ⟨e, parsed, value⟩ := spells fuel rest (by omega) follows.1
    refine ⟨e, ?_, value⟩
    rw [parseAnd, parsed]
    simp only [Option.bind_eq_bind, Option.bind_some]
    split
    · simp at follows
    · rfl
  | @chain a b v w spells _ ih =>
    obtain ⟨fuel, rfl⟩ := Nat.exists_eq_add_of_le' (Nat.le_of_add_left_le enough)
    simp only [tokens_append, tokens_word, List.length_append, List.length_singleton] at enough
    obtain ⟨e, parsed, value⟩ := spells fuel (word .and ++ (b ++ rest)) (by omega)
      (by simp)
    obtain ⟨e', parsed', value'⟩ := ih (show 4 * b.tokens.length + 1 ≤ fuel by omega)
    refine ⟨.and e e', ?_, by rw [Env.eval, value, value']⟩
    rw [append_assoc, append_assoc, parseAnd, parsed]
    simp only [Option.bind_eq_bind, Option.bind_some, word_append]
    rw [show (⟨(b ++ rest).tokens, (b ++ rest).params⟩ : Text α) = b ++ rest from rfl, parsed']
    rfl

theorem SpellsOr.parse (h : SpellsOr env text v) (rest : Text α) {fuel : Nat}
    (enough : 4 * text.tokens.length + 2 ≤ fuel)
    (follows : rest.tokens.head? ∉ [some .collateNocase, some .and, some .or]) :
    ∃ e, parseOr fuel (text ++ rest) = some (e, rest) ∧ env.eval e = v := by
  simp only [List.mem_cons, List.not_mem_nil, or_false, not_or] at follows
  induction h generalizing fuel with
  | single spells =>
    obtain ⟨fuel, rfl⟩ := Nat.exists_eq_add_of_le' (Nat.le_of_add_left_le enough)
    obtain ⟨e, parsed, value⟩ := spells.parse rest
      (show _ ≤ fuel + 1 by omega) (by simp [follows])
    refine ⟨e, ?_, value⟩
    rw [parseOr, parsed]
    simp only [Option.bind_eq_bind, Option.bind_some]
    split
    · simp at follows
    · rfl
  | @chain a b v w spells _ ih =>
    obtain ⟨fuel, rfl⟩ := Nat.exists_eq_add_of_le' (Nat.le_of_add_left_le enough)
    simp only [tokens_append, tokens_word, List.length_append, List.length_singleton] at enough
    obtain ⟨e, parsed, value⟩ := spells.parse (word .or ++ (b ++ rest))
      (show _ ≤ fuel + 1 by omega) (by simp)
    obtain ⟨e', parsed', value'⟩ := ih (show 4 * b.tokens.length + 2 ≤ fuel + 1 by omega)
    refine ⟨.or e e', ?_, by rw [Env.eval, value, value']⟩
    rw [append_assoc, append_assoc, parseOr, parsed]
    simp only [Option.bind_eq_bind, Option.bind_some, word_append]
    rw [show (⟨(b ++ rest).tokens, (b ++ rest).params⟩ : Text α) = b ++ rest from rfl, parsed']
    rfl

/-- A condition at the end of a chain joined by `AND`. -/
theorem SpellsAnd.append (ha : SpellsAnd env a v) (hb : SpellsNot env b w) :
    SpellsAnd env (a ++ word .and ++ b) (and3 v w) := by
  induction ha with
  | single spells => exact .chain spells (.single hb)
  | @chain a₁ a₂ v₁ v₂ spells _ ih =>
    have shape : a₁ ++ word .and ++ a₂ ++ word .and ++ b =
        a₁ ++ word .and ++ (a₂ ++ word .and ++ b) := by simp only [append_assoc]
    rw [shape, and3_assoc]
    exact .chain spells ih

/-- Two chains joined by `OR` are one. -/
theorem SpellsOr.append (ha : SpellsOr env a v) (hb : SpellsOr env b w) :
    SpellsOr env (a ++ word .or ++ b) (or3 v w) := by
  induction ha with
  | single spells => exact .chain spells hb
  | @chain a₁ a₂ v₁ v₂ spells _ ih =>
    have shape : a₁ ++ word .or ++ a₂ ++ word .or ++ b =
        a₁ ++ word .or ++ (a₂ ++ word .or ++ b) := by simp only [append_assoc]
    rw [shape, or3_assoc]
    exact .chain spells ih

theorem SpellsNot.spellsOr (h : SpellsNot env text v) : SpellsOr env text v := .single (.single h)

theorem SpellsNot.nonempty (h : SpellsNot env text v) : text.tokens ≠ [] := by
  intro empty
  obtain ⟨e, parsed, -⟩ := h 0 ⟨[], []⟩ (by simp [empty]) (by simp)
  cases parsed

theorem SpellsOr.nonempty (h : SpellsOr env text v) : text.tokens ≠ [] := by
  cases h with
  | single spells =>
    cases spells with
    | single spells => exact spells.nonempty
    | chain => simp
  | chain => simp

theorem SpellsOr.paren (h : SpellsOr env text v) :
    SpellsNot env (word .lparen ++ text ++ word .rparen) v := by
  intro fuel rest enough _
  simp only [tokens_append, tokens_word, List.length_append, List.length_singleton] at enough
  obtain ⟨fuel, rfl⟩ : ∃ f, fuel = f + 1 := Nat.exists_eq_succ_of_ne_zero (by omega)
  obtain ⟨e, parsed, value⟩ := h.parse (word .rparen ++ rest)
    (show _ ≤ fuel by omega) (by simp [word])
  refine ⟨e, ?_, value⟩
  rw [append_assoc, append_assoc, parseNot_lparen, parsed]
  rfl

theorem SpellsNot.not (h : SpellsNot env text v) :
    SpellsNot env (word .not ++ text) (v.map Bool.not) := by
  intro fuel rest enough follows
  simp only [tokens_append, tokens_word, List.length_append, List.length_singleton] at enough
  obtain ⟨fuel, rfl⟩ : ∃ f, fuel = f + 1 := Nat.exists_eq_succ_of_ne_zero (by omega)
  obtain ⟨e, parsed, value⟩ := h fuel rest (by omega) follows
  refine ⟨.not e, ?_, by rw [Env.eval, value]⟩
  rw [append_assoc, parseNot_not, parsed]
  rfl

theorem SpellsOr.run (h : SpellsOr env text v) : run env text = some v := by
  obtain ⟨e, parsed, value⟩ := h.parse ⟨[], []⟩
    (show _ ≤ 4 * text.tokens.length + 4 by omega) (by simp)
  rw [append_nil] at parsed
  simp [Sql.run, Sql.parse, parsed, value]

/-! ## Texts that spell nothing -/

/-- No condition at the level of `NOT` begins where the text does. -/
def FailsNot (text : Text α) : Prop :=
  ∀ fuel rest, 4 * text.tokens.length ≤ fuel → parseNot fuel (text ++ rest) = none

def FailsAnd (text : Text α) : Prop :=
  ∀ fuel rest, 4 * text.tokens.length + 1 ≤ fuel → parseAnd fuel (text ++ rest) = none

def FailsOr (text : Text α) : Prop :=
  ∀ fuel rest, 4 * text.tokens.length + 2 ≤ fuel → parseOr fuel (text ++ rest) = none

theorem FailsNot.nonempty (h : FailsNot text) : text.tokens ≠ [] := by
  intro empty
  have refused := h 1 (word (.truth true)) (by simp [empty])
  obtain ⟨tokens, params⟩ := text
  subst empty
  simp [mk_append, word, parseNot] at refused

theorem FailsNot.failsAnd (h : FailsNot text) (more : Text α) : FailsAnd (text ++ more) := by
  intro fuel rest enough
  simp only [tokens_append, List.length_append] at enough
  obtain ⟨fuel, rfl⟩ := Nat.exists_eq_add_of_le' (Nat.le_of_add_left_le enough)
  rw [append_assoc, parseAnd, h fuel (more ++ rest) (by omega)]
  rfl

theorem FailsAnd.failsOr (h : FailsAnd text) : FailsOr text := by
  intro fuel rest enough
  obtain ⟨fuel, rfl⟩ := Nat.exists_eq_add_of_le' (Nat.le_of_add_left_le enough)
  rw [parseOr, h (fuel + 1) rest (by omega)]
  rfl

theorem SpellsNot.and_fails (ha : SpellsNot env a v) (hb : FailsAnd b) :
    FailsAnd (a ++ word .and ++ b) := by
  intro fuel rest enough
  simp only [tokens_append, tokens_word, List.length_append, List.length_singleton] at enough
  obtain ⟨fuel, rfl⟩ := Nat.exists_eq_add_of_le' (Nat.le_of_add_left_le enough)
  obtain ⟨e, parsed, -⟩ := ha fuel (word .and ++ (b ++ rest)) (by omega) (by simp)
  rw [append_assoc, append_assoc, parseAnd, parsed]
  simp only [Option.bind_eq_bind, Option.bind_some, word_append]
  rw [show (⟨(b ++ rest).tokens, (b ++ rest).params⟩ : Text α) = b ++ rest from rfl,
    hb fuel rest (by omega)]
  rfl

theorem SpellsAnd.and_fails (ha : SpellsAnd env a v) (hb : FailsAnd b) :
    FailsAnd (a ++ word .and ++ b) := by
  induction ha with
  | single spells => exact spells.and_fails hb
  | @chain a₁ a₂ v₁ v₂ spells _ ih =>
    have shape : a₁ ++ word .and ++ a₂ ++ word .and ++ b =
        a₁ ++ word .and ++ (a₂ ++ word .and ++ b) := by simp only [append_assoc]
    rw [shape]
    exact spells.and_fails ih

theorem SpellsAnd.or_fails (ha : SpellsAnd env a v) (hb : FailsOr b) :
    FailsOr (a ++ word .or ++ b) := by
  intro fuel rest enough
  simp only [tokens_append, tokens_word, List.length_append, List.length_singleton] at enough
  obtain ⟨fuel, rfl⟩ := Nat.exists_eq_add_of_le' (Nat.le_of_add_left_le enough)
  obtain ⟨e, parsed, -⟩ := ha.parse (word .or ++ (b ++ rest)) (show _ ≤ fuel + 1 by omega) (by simp)
  rw [append_assoc, append_assoc, parseOr, parsed]
  simp only [Option.bind_eq_bind, Option.bind_some, word_append]
  rw [show (⟨(b ++ rest).tokens, (b ++ rest).params⟩ : Text α) = b ++ rest from rfl,
    hb (fuel + 1) rest (by omega)]
  rfl

theorem SpellsOr.or_fails (ha : SpellsOr env a v) (hb : FailsOr b) :
    FailsOr (a ++ word .or ++ b) := by
  induction ha with
  | single spells => exact spells.or_fails hb
  | @chain a₁ a₂ v₁ v₂ spells _ ih =>
    have shape : a₁ ++ word .or ++ a₂ ++ word .or ++ b =
        a₁ ++ word .or ++ (a₂ ++ word .or ++ b) := by simp only [append_assoc]
    rw [shape]
    exact spells.or_fails ih

/-- What follows an `AND` belongs to the last chain before it. -/
theorem SpellsOr.and_fails (ha : SpellsOr env a v) (hb : FailsAnd b) :
    FailsOr (a ++ word .and ++ b) := by
  induction ha with
  | single spells => exact (spells.and_fails hb).failsOr
  | @chain a₁ a₂ v₁ v₂ spells _ ih =>
    have shape : a₁ ++ word .or ++ a₂ ++ word .and ++ b =
        a₁ ++ word .or ++ (a₂ ++ word .and ++ b) := by simp only [append_assoc]
    rw [shape]
    exact spells.or_fails ih

theorem FailsOr.paren (h : FailsOr text) (more : Text α) :
    FailsNot (word .lparen ++ text ++ more) := by
  intro fuel rest enough
  simp only [tokens_append, tokens_word, List.length_append, List.length_singleton] at enough
  obtain ⟨fuel, rfl⟩ : ∃ f, fuel = f + 1 := Nat.exists_eq_succ_of_ne_zero (by omega)
  rw [append_assoc, append_assoc, parseNot_lparen, h fuel (more ++ rest) (by omega)]
  rfl

theorem FailsNot.not (h : FailsNot text) : FailsNot (word .not ++ text) := by
  intro fuel rest enough
  simp only [tokens_append, tokens_word, List.length_append, List.length_singleton] at enough
  obtain ⟨fuel, rfl⟩ : ∃ f, fuel = f + 1 := Nat.exists_eq_succ_of_ne_zero (by omega)
  rw [append_assoc, parseNot_not, h fuel rest (by omega)]
  rfl

/-- Parentheses have to hold something. -/
theorem failsNot_parens : FailsNot (word .lparen ++ word .rparen : Text α) := by
  have closing (fuel : Nat) (text : Text α) : parseOr fuel (word .rparen ++ text) = none := by
    rcases fuel with _ | _ | _ | fuel
    · rfl
    · rfl
    · rfl
    · rfl
  intro fuel rest enough
  obtain ⟨fuel, rfl⟩ : ∃ f, fuel = f + 1 := Nat.exists_eq_succ_of_ne_zero (by
    simp only [tokens_append, tokens_word, List.length_append, List.length_singleton] at enough
    omega)
  rw [append_assoc, parseNot_lparen, closing]
  rfl

theorem FailsOr.run (h : FailsOr text) (env : Env α) : run env text = none := by
  have parsed := h _ ⟨[], []⟩ (show _ ≤ 4 * text.tokens.length + 4 by omega)
  rw [append_nil] at parsed
  simp [Sql.run, Sql.parse, parsed]

/-! ## Conditions that spell themselves -/

private theorem exists_fuel {text : Text α} {fuel : Nat} (nonempty : text.tokens ≠ [])
    (enough : 4 * text.tokens.length ≤ fuel) : ∃ f, fuel = f + 1 :=
  Nat.exists_eq_succ_of_ne_zero (by have := List.length_pos_iff.mpr nonempty; omega)

theorem spellsNot_truth (b : Bool) : SpellsNot env (word (.truth b)) (some b) := by
  intro fuel rest enough _
  obtain ⟨fuel, rfl⟩ := exists_fuel (by simp) enough
  exact ⟨.truth b, by rw [word_append, parseNot]; rfl, rfl⟩

theorem spellsNot_call (f column : String) (x : α) :
    SpellsNot env ⟨[.name f, .lparen, .name column, .comma, .placeholder, .rparen], [x]⟩
      (env.call f (env.column column) x) := by
  intro fuel rest enough _
  obtain ⟨fuel, rfl⟩ := exists_fuel (by simp) enough
  exact ⟨.call f column x, by cases rest; rfl, rfl⟩

/-- The tokens of `COLLATE NOCASE`, if wanted. -/
def collation (nocase : Bool) : List Token := if nocase then [.collateNocase] else []

theorem parseOperand_placeholder (x : α) (nocase : Bool) {ts : List Token} {as : List α}
    (follows : ts.head? ≠ some .collateNocase) :
    parseOperand ⟨.placeholder :: (collation nocase ++ ts), x :: as⟩ =
      some (⟨.inr x, nocase⟩, ⟨ts, as⟩) := by
  cases nocase with
  | true => rfl
  | false =>
    cases ts with
    | nil => rfl
    | cons t ts =>
      cases t <;> first | rfl | simp at follows

theorem spellsNot_isNull (s : String) :
    SpellsNot env ⟨[.name s, .is, .null], []⟩ (some (env.column s == .null)) := by
  intro fuel rest enough _
  obtain ⟨fuel, rfl⟩ := exists_fuel (by simp) enough
  exact ⟨.isNull ⟨.inl s, false⟩, by cases rest; rfl, rfl⟩

theorem spellsNot_isNotNull (s : String) :
    SpellsNot env ⟨[.name s, .is, .not, .null], []⟩ (some (env.column s != .null)) := by
  intro fuel rest enough _
  obtain ⟨fuel, rfl⟩ := exists_fuel (by simp) enough
  exact ⟨.isNotNull ⟨.inl s, false⟩, by cases rest; rfl, rfl⟩

/-- The value of a comparison of a column with a parameter. -/
def Env.compareColumn (env : Env α) (op : Comparison) (s : String) (nocase : Bool) (x : α) :
    Option Bool :=
  ((env.column s).compare nocase (env.value x)).map op.test

theorem spellsNot_compare (op : Comparison) (s : String) (nocase : Bool) (x : α) :
    SpellsNot env ⟨.name s :: .op op :: .placeholder :: collation nocase, [x]⟩
      (env.compareColumn op s nocase x) := by
  intro fuel rest enough follows
  obtain ⟨fuel, rfl⟩ := exists_fuel (by simp) enough
  obtain ⟨ts, as⟩ := rest
  refine ⟨.compare op ⟨.inl s, false⟩ ⟨.inr x, nocase⟩, ?_, by
    simp [Env.eval, Env.compare, Env.operand, Env.compareColumn]⟩
  have left : parseOperand ⟨.name s :: .op op :: .placeholder :: (collation nocase ++ ts), x :: as⟩ =
      some (⟨.inl s, false⟩, ⟨.op op :: .placeholder :: (collation nocase ++ ts), x :: as⟩) := rfl
  rw [mk_append, List.cons_append, List.cons_append, List.cons_append, parseNot, parsePredicate]
  · simp only [List.cons_append, List.nil_append, left, Option.bind_eq_bind, Option.bind_some,
      parseOperand_placeholder x nocase follows]
    rfl
  all_goals simp

theorem spellsNot_between (s : String) (nocase : Bool) (x y : α) :
    SpellsNot env ⟨.name s :: .between :: .placeholder :: (collation nocase ++
        .and :: .placeholder :: collation nocase), [x, y]⟩
      (and3 (env.compareColumn .ge s nocase x) (env.compareColumn .le s nocase y)) := by
  intro fuel rest enough follows
  obtain ⟨fuel, rfl⟩ := exists_fuel (by simp) enough
  obtain ⟨ts, as⟩ := rest
  refine ⟨.between ⟨.inl s, false⟩ ⟨.inr x, nocase⟩ ⟨.inr y, nocase⟩, ?_, by
    simp [Env.eval, Env.compare, Env.operand, Env.compareColumn]⟩
  have left (us : List Token) : parseOperand ⟨.name s :: .between :: us, x :: y :: as⟩ =
      some (⟨.inl s, false⟩, ⟨.between :: us, x :: y :: as⟩) := rfl
  have lower := @parseOperand_placeholder α x nocase
    (.and :: .placeholder :: (collation nocase ++ ts)) (y :: as) (by simp)
  rw [mk_append, List.cons_append, List.cons_append, List.cons_append, parseNot, parsePredicate]
  · simp only [List.append_assoc, List.cons_append, List.nil_append, left, Option.bind_eq_bind,
      Option.bind_some, lower, parseOperand_placeholder y nocase follows]
    rfl
  all_goals simp

theorem spellsNot_like (s : String) (x : α) (c : Char) :
    SpellsNot env ⟨[.name s, .like, .placeholder, .escape c], [x]⟩
      (if env.column s = .null ∨ env.value x = .null then none
        else like c (env.text (env.value x)) (env.text (env.column s))) := by
  intro fuel rest enough _
  obtain ⟨fuel, rfl⟩ := exists_fuel (by simp) enough
  exact ⟨.like ⟨.inl s, false⟩ ⟨.inr x, false⟩ c, by cases rest; rfl, rfl⟩

end

end Sql
