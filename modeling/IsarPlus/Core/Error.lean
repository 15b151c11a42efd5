import Mathlib.Init

/-!
# Errors

`isar_core/src/core/error.rs`, and the two ways in which an operation can fail to complete: with
an `IsarError`, or by a panic (an index out of bounds, an `unwrap`, `unreachable!()`).
-/

namespace IsarPlus

/-- `IsarError` (`core/error.rs:5-74`). -/
inductive IsarError where
  | pathError | writeTxnRequired
  | schemaError (message : String)
  | versionError | unsupportedOperation | objectLimitReached | insertIncomplete | instanceMismatch
  | transactionClosed | idNotFound | unknownProperty | transactionActive | illegalString
  | illegalArgument
  | jsonError (message : String)
  | encryptionError | dbFull | dbCorrupted
  | dbError (code : Int32) (message : String)
  deriving DecidableEq, Repr

inductive Fault where
  | panic
  | error (e : IsarError)
  deriving DecidableEq, Repr

/-- `core::error::Result`, with a panic as a further outcome. -/
abbrev Result := Except Fault

/-- A read or write that is `none` where the source panics. -/
def orPanic {α : Type} : Option α → Result α
  | some a => .ok a
  | none => .error .panic

def fail {α : Type} (e : IsarError) : Result α := .error (.error e)

/-- The computation succeeds with a result that passes the test. -/
def succeedsWith {α : Type} (x : Result α) (test : α → Bool) : Bool :=
  match x with
  | .ok a => test a
  | .error _ => false

theorem exists_of_succeedsWith {α : Type} (x : Result α) (test : α → Bool)
    (h : succeedsWith x test = true) : ∃ a, x = .ok a ∧ test a = true := by
  cases x with
  | error e => cases h
  | ok a => exact ⟨a, rfl, h⟩

theorem orPanic_eq_ok {α : Type} {x : Option α} {a : α} : orPanic x = .ok a ↔ x = some a := by
  cases x <;> simp [orPanic]

@[simp] theorem fail_ne_ok {α : Type} {e : IsarError} {a : α} : (fail e : Result α) ≠ .ok a := by
  simp [fail]

/-- A computation that succeeds has succeeded in its first step. -/
theorem bind_eq_ok {α β : Type} {x : Result α} {f : α → Result β} {b : β} :
    (x >>= f) = .ok b ↔ ∃ a, x = .ok a ∧ f a = .ok b := by
  cases x <;> simp [bind, Except.bind]

theorem map_eq_ok {α β : Type} {x : Result α} {f : α → β} {b : β} :
    x.map f = .ok b ↔ ∃ a, x = .ok a ∧ f a = b := by
  cases x <;> simp [Except.map]

@[simp] theorem pure_eq_ok {α : Type} {a b : α} : (pure a : Result α) = .ok b ↔ a = b := by
  simp [pure, Except.pure]

/-- What is read in all of a list is read somewhere in it. -/
theorem mem_of_mapM {α β : Type} {f : α → Option β} {l : List α} {r : List β}
    (h : l.mapM f = some r) : ∀ b ∈ r, ∃ a ∈ l, f a = some b := by
  induction l generalizing r with
  | nil =>
    cases h
    simp
  | cons a l ih =>
    rw [List.mapM_cons] at h
    obtain ⟨b, first, h⟩ := Option.bind_eq_some_iff.mp h
    obtain ⟨rest, later, eq⟩ := Option.bind_eq_some_iff.mp h
    cases eq
    intro b' mem
    rcases List.mem_cons.mp mem with rfl | mem
    · exact ⟨a, List.mem_cons_self, first⟩
    · obtain ⟨a', memA, found⟩ := ih later b' mem
      exact ⟨a', List.mem_cons_of_mem _ memA, found⟩

end IsarPlus
