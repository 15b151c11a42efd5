import IsarPlus.Native.Proofs.FailedMigration
import IsarPlus.Native.Transaction
import Mathlib

/-!
# Commits of broken transactions

A failed operation breaks its transaction, which the storage library then drops with a code that
counts as success.
-/

namespace IsarPlus.Native
open ByteBuffer OrderedStore

variable {xxh3_64 : Bytes → UInt64} {strerror : Int32 → String}

theorem mdbxResult_eq_ok {errCode : Int32} :
    mdbxResult strerror errCode = .ok () ↔ errCode = mdbxSuccess ∨ errCode = mdbxResultTrue := by
  unfold mdbxResult
  split
  · rename_i success
    exact iff_of_true rfl success
  · rename_i failed
    refine iff_of_false ?_ failed
    split <;> exact fail_ne_ok

namespace WriteTxn

theorem someFailed_cons {call : Call × Result Unit} {calls : List (Call × Result Unit)} :
    SomeFailed (call :: calls) ↔ (call.1.refused = false ∧ call.2 ≠ .ok ()) ∨ SomeFailed calls :=
  List.exists_mem_cons_iff _ _ _

/-- A transaction is broken exactly if one of its guarded operations has failed. -/
theorem broken_of_run {w w' : WriteTxn} {calls : List (Call × Result Unit)}
    (run : Run (Step xxh3_64) w calls w') :
    w'.broken = true ↔ w.broken = true ∨ SomeFailed calls := by
  induction run with
  | nil => simp [SomeFailed]
  | cons one _ ih =>
    rw [ih, someFailed_cons]
    cases one with
    | refused beyond => simp [beyond]
    | done performed => simp [guard]
    | failed guarded => simp [guard, guarded, fail]

/-- A transaction without a failed guarded operation is that of the operations that succeeded. -/
theorem performAll_of_run {w w' : WriteTxn} {calls : List (Call × Result Unit)}
    (run : Run (Step xxh3_64) w calls w') (fine : ¬ SomeFailed calls) :
    performAll xxh3_64 w.txn (succeeded calls) = .ok w'.txn := by
  induction run with
  | nil => rfl
  | cons one _ ih =>
    rw [someFailed_cons, not_or] at fine
    have rest := ih fine.2
    cases one with
    | refused beyond =>
      rw [succeeded, List.filter_cons_of_neg (by simp [fail])]
      exact rest
    | @done call txn performed =>
      rw [performAll, succeeded, List.filter_cons_of_pos (by simp), List.map_cons,
        List.foldlM_cons]
      exact bind_eq_ok.mpr ⟨txn, performed, rest⟩
    | failed guarded => exact absurd ⟨guarded, fail_ne_ok⟩ fine.1

theorem commit_of_ok {w : WriteTxn} {s : Storage} {errCode : Int32} {kept : Bool}
    (ok : mdbxResult strerror errCode = .ok ()) : w.commit strerror s errCode kept =
      { result := .ok (), storage := if kept then s.commitTxn w.txn else s
        notified := some w.txn.changeSet } := by
  simp only [commit, ok]

theorem commit_of_error {w : WriteTxn} {s : Storage} {errCode : Int32} {kept : Bool} {e : Fault}
    (failed : mdbxResult strerror errCode = .error e) : w.commit strerror s errCode kept =
      { result := .error e, storage := if kept then s.commitTxn w.txn else s, notified := none } := by
  simp only [commit, failed]

/-- A commit is honest exactly if no guarded operation of its transaction has failed. -/
theorem commit_exact (s : Storage) (counters : String → Int64)
    {calls : List (Call × Result Unit)} {w : WriteTxn} {errCode : Int32} {kept : Bool}
    (run : Run (Step xxh3_64) ⟨s.beginTxn counters, false⟩ calls w)
    (committed : CommitEx w.broken errCode kept) :
    (w.commit strerror s errCode kept).Honest xxh3_64 s counters calls kept ↔
      ∀ call ∈ calls, call.1.refused = false → call.2 = .ok () := by
  have broken : w.broken = true ↔ SomeFailed calls := by
    rw [broken_of_run run]
    simp
  have fine_iff : (∀ call ∈ calls, call.1.refused = false → call.2 = .ok ()) ↔
      ¬ SomeFailed calls := by
    simp only [SomeFailed, not_exists, not_and, not_not]
  rw [fine_iff]
  constructor
  · rintro ⟨-, fails⟩ failed
    rw [broken.mpr failed] at committed
    cases committed
    have result := (fails failed).1
    rw [commit_of_ok (mdbxResult_eq_ok.mpr (Or.inr rfl))] at result
    exact result rfl
  · intro fine
    have intact : w.broken = false := by
      rw [← Bool.not_eq_true, broken]
      exact fine
    have done := performAll_of_run run fine
    refine ⟨?_, fun failed => absurd failed fine⟩
    rw [intact] at committed
    cases committed with
    | kept =>
      intro _
      rw [commit_of_ok (mdbxResult_eq_ok.mpr (Or.inl rfl))]
      exact ⟨⟨w.txn, done, rfl⟩, fun _ => rfl⟩
    | refused success other =>
      intro ok
      cases result : mdbxResult strerror errCode with
      | ok _ =>
        rcases mdbxResult_eq_ok.mp result with eq | eq
        · exact absurd eq success
        · exact absurd eq other
      | error e =>
        rw [commit_of_error result] at ok
        cases ok

/-- A collection without indexes. -/
def plainTask : NativeCollection :=
  NativeCollection.new 0 "Task" (some "id") [] [] (some "Task")

/-- A task is saved, another one is too large, and the old one is removed. -/
def taskCalls : List (Call × Result Unit) :=
  [(⟨plainTask, .save 2 [0, 0, 0]⟩, .ok ()),
    (⟨plainTask, .save 3 (List.replicate (maxObjSize + 1) 0)⟩, fail .objectLimitReached),
    (⟨plainTask, .delete 1⟩, .ok ())]

theorem commit_exact_on_tasks : ∃ w,
    Run (Step fun _ => 0) ⟨taskStorage.beginTxn fun _ => 1, false⟩ taskCalls w ∧
      ((commit (fun _ => "") w taskStorage mdbxSuccess true).Honest (fun _ => 0) taskStorage
          (fun _ => 1) taskCalls true ↔
        ∀ call ∈ taskCalls, call.1.refused = false → call.2 = .ok ()) := by
  have beyond : Call.refused ⟨plainTask, .save 3 (List.replicate (maxObjSize + 1) 0)⟩ = true := by
    simp [Call.refused]
  have run : Run (Step fun _ => 0) ⟨taskStorage.beginTxn fun _ => 1, false⟩ taskCalls _ :=
    .cons (.done rfl) (.cons (.refused beyond) (.cons (.done rfl) .nil))
  exact ⟨_, run, commit_exact taskStorage (fun _ => 1) run .kept⟩

/-- The transaction after the tasks were removed. -/
def clearedTasks : NativeTxn :=
  ((taskStorage.beginTxn fun _ => 1).register (.all "Task")).clearPrimary "Task"

/-- Behind a failed operation the commit succeeds all the same, and tells the watchers of what is
lost. -/
theorem broken_commit_succeeds : ∃ calls w, Run (Step fun _ => 0)
      ⟨taskStorage.beginTxn fun _ => 1, false⟩ calls w ∧
    SomeFailed calls ∧ CommitEx w.broken mdbxResultTrue false ∧
    (w.commit (fun _ => "") taskStorage mdbxResultTrue false).result = .ok () ∧
    (w.commit (fun _ => "") taskStorage mdbxResultTrue false).notified = some [.all "Task"] ∧
    ¬ (w.commit (fun _ => "") taskStorage mdbxResultTrue false).Honest (fun _ => 0) taskStorage
      (fun _ => 1) calls false := by
  have failed : SomeFailed
      [((⟨plainTask, .clear⟩ : Call), (.ok () : Result Unit)),
        (⟨plainTask, .update 1 []⟩, fail .dbFull)] :=
    ⟨_, List.mem_cons_of_mem _ List.mem_cons_self, rfl, fail_ne_ok⟩
  refine ⟨[(⟨plainTask, .clear⟩, .ok ()), (⟨plainTask, .update 1 []⟩, fail .dbFull)], _,
    .cons (.done rfl) (.cons (@Step.failed _ _ _ clearedTasks .dbFull rfl) .nil), failed, .broken,
    rfl, rfl, ?_⟩
  rintro ⟨-, fails⟩
  exact (fails failed).1 rfl

end WriteTxn

end IsarPlus.Native
