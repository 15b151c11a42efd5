import IsarPlus.Sqlite.Sql

/-!
# Groups of translated filters

What the text of a group spells, given what the texts of its filters spell. `NULL` counts as false at
the top of a condition and so below an even number of negations, and as true below an odd number:
with that a text in three-valued logic comes to one of two values, and the connectives to those of
Booleans.
-/

namespace IsarPlus.Sqlite
open Scalar Sql

/-! ## Values -/

section
variable (negated : Bool)

theorem getD_and3 (v w : Option Bool) :
    (and3 v w).getD negated = (v.getD negated && w.getD negated) := by
  cases negated <;> rcases v with _ | _ | _ <;> rcases w with _ | _ | _ <;> rfl

theorem getD_or3 (v w : Option Bool) :
    (or3 v w).getD negated = (v.getD negated || w.getD negated) := by
  cases negated <;> rcases v with _ | _ | _ <;> rcases w with _ | _ | _ <;> rfl

theorem getD_not (v : Option Bool) :
    (v.map Bool.not).getD negated = !v.getD (!negated) := by
  cases negated <;> rcases v with _ | _ | _ <;> rfl

end

/-- The text spells, at the level of `NOT` if it is `tight`, a condition that comes to `m`, below an
odd number of negations if `negated`. -/
def Translates (env : Env QueryParam) (negated tight : Bool) (text : Text QueryParam) (m : Bool) :
    Prop :=
  ∃ v, v.getD negated = m ∧ SpellsOr env text v ∧ (tight = true → SpellsNot env text v)

section
variable {env : Env QueryParam} {negated tight tight' m m' : Bool} {text : Text QueryParam}

theorem Translates.of_spellsNot {v : Option Bool} (spells : SpellsNot env text v)
    (value : v.getD negated = m) : Translates env negated tight text m :=
  ⟨v, value, spells.spellsOr, fun _ => spells⟩

theorem Translates.congr (h : Translates env negated tight text m) (same : m' = m) :
    Translates env negated tight text m' := same ▸ h

theorem Translates.not (h : Translates env (!negated) tight text m) :
    Translates env negated tight' (word .not ++ (word .lparen ++ text ++ word .rparen)) !m := by
  obtain ⟨v, value, spells, -⟩ := h
  exact .of_spellsNot spells.paren.not (by rw [getD_not, value])

end

/-! ## Joining -/

/-- What the loop has joined so far stays in front. -/
theorem foldl_joinSql (separator : Token) {a b : Text QueryParam} (nonempty : b.tokens ≠ [])
    (texts : List (Text QueryParam)) :
    texts.foldl (fun sql filter =>
        (if sql.tokens.isEmpty then sql else sql ++ word separator) ++ filter) (a ++ b) =
      a ++ texts.foldl (fun sql filter =>
        (if sql.tokens.isEmpty then sql else sql ++ word separator) ++ filter) b := by
  induction texts generalizing b with
  | nil => rfl
  | cons text texts ih =>
    have left : (a ++ b).tokens.isEmpty = false := by simp [nonempty]
    have right : b.tokens.isEmpty = false := by simp [nonempty]
    simp only [List.foldl_cons, left, right, Bool.false_eq_true, if_false]
    rw [append_assoc, append_assoc, ih (by simp), append_assoc]

theorem joinSql_cons (separator : Token) {text next : Text QueryParam}
    (nonempty : text.tokens ≠ []) (nonempty' : next.tokens ≠ [])
    (texts : List (Text QueryParam)) :
    joinSql separator (text :: next :: texts) =
      text ++ word separator ++ joinSql separator (next :: texts) := by
  have start (b : Text QueryParam) : (⟨[], []⟩ : Text QueryParam) ++ b = b := rfl
  have filled : text.tokens.isEmpty = false := by simp [nonempty]
  simp only [joinSql, List.foldl_cons, List.isEmpty_nil, if_true, start, filled,
    Bool.false_eq_true, if_false]
  exact foldl_joinSql separator nonempty' texts

/-! ## Parts of a group -/

/-- What the text of a filter is in a group and what it comes to: one condition, or two conditions
joined by `OR` without parentheses. -/
inductive Part where
  | whole (value : Bool)
  | split (left right : Bool)
  deriving DecidableEq, Repr

def Part.value : Part → Bool
  | .whole value => value
  | .split left right => left || right

/-- The value of a chain joined by `AND`, which binds tighter than the `OR` of a part: what stands
before the `OR` and what stands behind it are two alternatives. -/
def readAnd : Bool → List Part → Bool
  | before, [] => before
  | before, .whole value :: parts => readAnd (before && value) parts
  | before, .split left right :: parts => before && left || readAnd right parts

/-- The text of a filter in a group. -/
inductive Contributes (env : Env QueryParam) (negated : Bool) : Text QueryParam → Part → Prop
  | whole {text : Text QueryParam} {v : Option Bool} : SpellsNot env text v →
      Contributes env negated text (.whole (v.getD negated))
  | split {text text' : Text QueryParam} {v w : Option Bool} : SpellsNot env text v →
      SpellsNot env text' w →
      Contributes env negated (text ++ word .or ++ text') (.split (v.getD negated) (w.getD negated))

section
variable {env : Env QueryParam} {negated tight : Bool} {text : Text QueryParam} {part : Part}
  {texts : List (Text QueryParam)} {parts : List Part}

theorem Contributes.nonempty (h : Contributes env negated text part) : text.tokens ≠ [] := by
  cases h with
  | whole spells => exact spells.nonempty
  | split => simp

theorem Contributes.translates (h : Contributes env negated text part) :
    Translates env negated false text part.value := by
  cases h with
  | whole spells => exact .of_spellsNot spells rfl
  | @split text text' v w spells spells' =>
    exact ⟨or3 v w, getD_or3 negated v w, .chain (.single spells) spells'.spellsOr, nofun⟩

theorem Translates.contributes {m : Bool} (h : Translates env negated true text m) :
    Contributes env negated text (.whole m) := by
  obtain ⟨v, rfl, -, spells⟩ := h
  exact .whole (spells rfl)

/-- A chain of texts joined by `AND` behind the chain `first`. -/
theorem spells_joinAnd (h : List.Forall₂ (Contributes env negated) texts parts)
    {first : Text QueryParam} {v : Option Bool} (spells : SpellsAnd env first v) :
    ∃ w, w.getD negated = readAnd (v.getD negated) parts ∧
      SpellsOr env (texts.foldl (fun sql filter =>
        (if sql.tokens.isEmpty then sql else sql ++ word .and) ++ filter) first) w := by
  induction h generalizing first v with
  | nil => exact ⟨v, rfl, .single spells⟩
  | @cons text part texts parts head _ ih =>
    have filled : first.tokens.isEmpty = false := by simp [(SpellsOr.single spells).nonempty]
    simp only [List.foldl_cons, filled, Bool.false_eq_true, if_false]
    cases head with
    | @whole _ u spells' =>
      obtain ⟨w, value, joined⟩ := ih (spells.append spells')
      exact ⟨w, by rw [value, readAnd, getD_and3], joined⟩
    | @split left right u u' spells' spells'' =>
      obtain ⟨w, value, joined⟩ := ih (.single spells'')
      refine ⟨or3 (and3 v u) w, ?_, ?_⟩
      · rw [getD_or3, getD_and3, value, readAnd]
      · have shape : first ++ word .and ++ (left ++ word .or ++ right) =
            first ++ word .and ++ left ++ word .or ++ right := by simp only [append_assoc]
        rw [shape, foldl_joinSql .and spells''.nonempty]
        exact .chain (spells.append spells') joined

/-- The texts of an `and` group, joined. -/
theorem spellsOr_joinAnd (h : List.Forall₂ (Contributes env negated) texts parts)
    (nonempty : texts ≠ []) :
    ∃ w, w.getD negated = readAnd true parts ∧ SpellsOr env (joinSql .and texts) w := by
  cases h with
  | nil => contradiction
  | @cons text part texts parts head tail =>
    have start (b : Text QueryParam) : (⟨[], []⟩ : Text QueryParam) ++ b = b := rfl
    simp only [joinSql, List.foldl_cons, List.isEmpty_nil, if_true, start]
    cases head with
    | @whole _ v spells =>
      obtain ⟨w, value, joined⟩ := spells_joinAnd tail (.single spells)
      exact ⟨w, by rw [value, readAnd, Bool.true_and], joined⟩
    | @split left right v v' spells spells' =>
      obtain ⟨w, value, joined⟩ := spells_joinAnd tail (.single spells')
      refine ⟨or3 v w, by rw [getD_or3, value, readAnd, Bool.true_and], ?_⟩
      rw [foldl_joinSql .and spells'.nonempty]
      exact .chain (.single spells) joined

/-- The texts of an `or` group, joined. -/
theorem spellsOr_joinOr (h : List.Forall₂ (Contributes env negated) texts parts)
    (nonempty : texts ≠ []) :
    ∃ w, w.getD negated = parts.any Part.value ∧ SpellsOr env (joinSql .or texts) w := by
  induction h with
  | nil => contradiction
  | @cons text part texts parts head tail ih =>
    obtain ⟨v, value, spells, -⟩ := head.translates
    cases tail with
    | nil => exact ⟨v, by simpa using value, spells⟩
    | @cons next part' texts parts' head' tail =>
      obtain ⟨w, value', spells'⟩ := ih (by simp)
      refine ⟨or3 v w, by rw [getD_or3, value, value']; rfl, ?_⟩
      rw [joinSql_cons _ head.nonempty head'.nonempty]
      exact spells.append spells'

theorem translates_and (h : List.Forall₂ (Contributes env negated) texts parts)
    (nonempty : texts ≠ []) :
    Translates env negated tight (word .lparen ++ joinSql .and texts ++ word .rparen)
      (readAnd true parts) := by
  obtain ⟨v, value, spells⟩ := spellsOr_joinAnd h nonempty
  exact .of_spellsNot spells.paren value

theorem translates_or (h : List.Forall₂ (Contributes env negated) texts parts)
    (nonempty : texts ≠ []) :
    Translates env negated tight (word .lparen ++ joinSql .or texts ++ word .rparen)
      (parts.any Part.value) := by
  obtain ⟨v, value, spells⟩ := spellsOr_joinOr h nonempty
  exact .of_spellsNot spells.paren value

/-! ## Groups that spell nothing -/

theorem joinSql_append (separator : Token) {text : Text QueryParam} (nonempty : text.tokens ≠ [])
    (front rest : List (Text QueryParam)) (filled : (joinSql separator front).tokens ≠ []) :
    joinSql separator (front ++ text :: rest) =
      joinSql separator front ++ word separator ++ joinSql separator (text :: rest) := by
  have start (b : Text QueryParam) : (⟨[], []⟩ : Text QueryParam) ++ b = b := rfl
  have full : (joinSql separator front).tokens.isEmpty = false := by simp [filled]
  unfold joinSql at full ⊢
  simp only [List.foldl_append, List.foldl_cons, List.isEmpty_nil, if_true, start, full,
    Bool.false_eq_true, if_false]
  exact foldl_joinSql separator nonempty rest

theorem exists_joinSql (separator : Token) {text : Text QueryParam} (nonempty : text.tokens ≠ [])
    (rest : List (Text QueryParam)) :
    ∃ more, joinSql separator (text :: rest) = text ++ more := by
  have start (b : Text QueryParam) : (⟨[], []⟩ : Text QueryParam) ++ b = b := rfl
  simp only [joinSql, List.foldl_cons, List.isEmpty_nil, if_true, start]
  induction rest generalizing text with
  | nil => exact ⟨⟨[], []⟩, (append_nil text).symm⟩
  | cons next rest ih =>
    have filled : text.tokens.isEmpty = false := by simp [nonempty]
    simp only [List.foldl_cons, filled, Bool.false_eq_true, if_false]
    obtain ⟨more, joined⟩ := @ih (text ++ word separator ++ next) (by simp)
    exact ⟨word separator ++ next ++ more, by rw [joined]; simp only [append_assoc]⟩

/-- Among the texts is one that spells nothing, behind others that spell conditions. -/
def Spoilt (env : Env QueryParam) (negated : Bool) (texts : List (Text QueryParam)) : Prop :=
  ∃ front parts text rest, texts = front ++ text :: rest ∧
    List.Forall₂ (Contributes env negated) front parts ∧ FailsNot text

theorem Spoilt.failsNot {separator : Token} (isGroup : separator = .and ∨ separator = .or)
    (h : Spoilt env negated texts) :
    FailsNot (word .lparen ++ joinSql separator texts ++ word .rparen) := by
  obtain ⟨front, parts, text, rest, rfl, contribute, fails⟩ := h
  apply FailsOr.paren
  obtain ⟨more, joined⟩ := exists_joinSql separator fails.nonempty rest
  have tail : FailsAnd (joinSql separator (text :: rest)) := joined ▸ fails.failsAnd more
  by_cases empty : front = []
  · rw [empty]
    exact tail.failsOr
  rcases isGroup with rfl | rfl
  · obtain ⟨w, -, spells⟩ := spellsOr_joinAnd contribute empty
    rw [joinSql_append .and fails.nonempty front rest spells.nonempty]
    exact spells.and_fails tail
  · obtain ⟨w, -, spells⟩ := spellsOr_joinOr contribute empty
    rw [joinSql_append .or fails.nonempty front rest spells.nonempty]
    exact spells.or_fails tail.failsOr

end

end IsarPlus.Sqlite
