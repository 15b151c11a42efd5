import IsarPlus.Lib.Run
import IsarPlus.Sqlite.Transaction

/-!
# The states of an SQLite instance

The active flag, the write mutex and SQLite's own state over runs of calls. They fit the
transactions that the caller holds as long as no call loses one of the three: the calls that do
are those that `Call.Orderly` excludes.
-/

namespace IsarPlus.Sqlite

/-! ## Answers -/

/-- Every statement succeeds. -/
def Succeeds (responses : List Response) : Prop := ∀ r ∈ responses, r = .ok

/-- The statement at this place does not fail. -/
def Answers (responses : List Response) (i : Nat) : Prop :=
  ∀ e rolledBack, responses[i]? ≠ some (.error e rolledBack)

/-- Whether the statement at this place, a `COMMIT` or a `ROLLBACK`, ends the transaction. -/
def Ends (responses : List Response) (i : Nat) : Prop :=
  ∀ e, responses[i]? ≠ some (.error e false)

/-- If the statement at this place fails, SQLite does not roll back by itself. -/
def Stays (responses : List Response) (i : Nat) : Prop :=
  ∀ e, responses[i]? ≠ some (.error e true)

/-- The statement that fails leaves its transaction open, and so does the `ROLLBACK` behind it if
it fails. -/
def Recovers : List Response → Prop
  | [] => True
  | .ok :: responses => Recovers responses
  | .error _ rolledBack :: responses => rolledBack = false ∧ Stays responses 0

theorem Succeeds.answers {responses : List Response} (h : Succeeds responses) (i : Nat) :
    Answers responses i := by
  intro e rolledBack found
  cases h _ (List.mem_of_getElem? found)

theorem Succeeds.tail {responses : List Response} (h : Succeeds responses) :
    Succeeds responses.tail := fun r mem => h r (List.mem_of_mem_tail mem)

theorem Succeeds.recovers {responses : List Response} (h : Succeeds responses) :
    Recovers responses := by
  induction responses with
  | nil => trivial
  | cons r responses ih =>
    obtain rfl := h r (by simp)
    exact ih h.tail

theorem Recovers.drop {responses : List Response} (h : Recovers responses) {n : Nat}
    (ok : ∀ i < n, Answers responses i) : Recovers (responses.drop n) := by
  induction n generalizing responses with
  | zero => exact h
  | succ n ih =>
    cases responses with
    | nil => trivial
    | cons r responses =>
      cases r with
      | ok =>
        refine @ih responses h ?_
        intro i less
        exact ok (i + 1) (by omega)
      | error e rolledBack => exact absurd rfl (ok 0 (by omega) e rolledBack)

theorem execute_ok {inTransaction : Bool} {responses : List Response}
    (answers : Answers responses 0) :
    SQLite3.execute ⟨inTransaction, responses⟩ .other =
      (.ok (), ⟨inTransaction, responses.tail⟩) := by
  cases responses with
  | nil => rfl
  | cons r responses =>
    cases r with
    | ok => rfl
    | error e rolledBack => exact absurd rfl (answers e rolledBack)

/-- Inside a transaction a statement leaves its state alone. -/
theorem execute_other {responses : List Response} (h : Recovers responses) :
    (Answers responses 0 ∧ Recovers responses.tail) ∨
    ∃ e, SQLite3.execute ⟨true, responses⟩ .other = (.error e, ⟨true, responses.tail⟩) ∧
      Stays responses.tail 0 := by
  cases responses with
  | nil => exact Or.inl ⟨fun _ _ => by simp, trivial⟩
  | cons r responses =>
    cases r with
    | ok => exact Or.inl ⟨fun _ _ => by simp, h⟩
    | error e rolledBack =>
      obtain ⟨rfl, stays⟩ := h
      exact Or.inr ⟨e, rfl, stays⟩

theorem executeAll_spec {responses : List Response} (h : Recovers responses) (n : Nat) :
    (SQLite3.executeAll ⟨true, responses⟩ n = (.ok (), ⟨true, responses.drop n⟩) ∧
      Recovers (responses.drop n)) ∨
    ∃ e responses', SQLite3.executeAll ⟨true, responses⟩ n = (.error e, ⟨true, responses'⟩) ∧
      Stays responses' 0 := by
  induction n generalizing responses with
  | zero => exact Or.inl ⟨rfl, h⟩
  | succ n ih =>
    rw [SQLite3.executeAll]
    rcases execute_other h with ⟨answers, recovers⟩ | ⟨e, error, stays⟩
    · rw [execute_ok answers]
      have rest := ih recovers
      rwa [List.drop_tail] at rest
    · rw [error]
      exact Or.inr ⟨e, responses.tail, rfl, stays⟩

/-- A `ROLLBACK` succeeds, or fails and leaves the transaction open. -/
theorem execute_rollback {responses : List Response} (stays : Stays responses 0) :
    SQLite3.execute ⟨true, responses⟩ .rollback = (.ok (), ⟨false, responses.tail⟩) ∨
    ∃ e, SQLite3.execute ⟨true, responses⟩ .rollback = (.error e, ⟨true, responses.tail⟩) := by
  cases responses with
  | nil => exact Or.inl rfl
  | cons r responses =>
    cases r with
    | ok => exact Or.inl rfl
    | error e rolledBack =>
      cases rolledBack with
      | false => exact Or.inr ⟨e, rfl⟩
      | true => exact absurd rfl (stays e)

/-- A `COMMIT` or `ROLLBACK` that ends the transaction, whether it succeeds or not. -/
theorem execute_ends {responses : List Response} (ends : Ends responses 0) :
    (SQLite3.execute ⟨true, responses⟩ .commit).2.inTransaction = false ∧
    (SQLite3.execute ⟨true, responses⟩ .rollback).2.inTransaction = false := by
  cases responses with
  | nil => exact ⟨rfl, rfl⟩
  | cons r responses =>
    cases r with
    | ok => exact ⟨rfl, rfl⟩
    | error e rolledBack =>
      cases rolledBack with
      | false => exact absurd rfl (ends e)
      | true => exact ⟨rfl, rfl⟩

/-- Outside a transaction other statements do not open one. -/
theorem execute_other_outside (responses : List Response) :
    (SQLite3.execute ⟨false, responses⟩ .other).2.inTransaction = false := by
  unfold SQLite3.execute
  split <;> rfl

/-! ## What calls do to a transaction -/

/-- The job leaves an open transaction open, and leaves a failure to the `ROLLBACK`. -/
def Guarded (responses : List Response) (job : SQLite3 → Except IsarError Unit × SQLite3) : Prop :=
  (∃ responses', job ⟨true, responses⟩ = (.ok (), ⟨true, responses'⟩) ∧ Recovers responses') ∨
  ∃ e responses', job ⟨true, responses⟩ = (.error e, ⟨true, responses'⟩) ∧ Stays responses' 0

theorem getSqlite_write {txn : SQLiteTxn} (active : txn.active = true) :
    txn.getSqlite true = if txn.write then .ok () else .error .writeTxnRequired := by
  cases write : txn.write <;> simp [SQLiteTxn.getSqlite, active, write]

theorem guarded_modifyJob {txn : SQLiteTxn} {responses : List Response} {reads : Nat}
    (active : txn.active = true) (h : Recovers responses)
    (refused : txn.write = false → Stays responses reads) (writes : Nat) :
    Guarded responses (modifyJob txn reads writes) := by
  unfold Guarded modifyJob
  rcases executeAll_spec h reads with ⟨ok, recovers⟩ | ⟨e, responses', error, stays⟩
  · rw [ok, getSqlite_write active]
    cases write : txn.write with
    | true =>
      rcases executeAll_spec recovers writes with ⟨ok, recovers⟩ | error
      · exact Or.inl ⟨_, ok, recovers⟩
      · exact Or.inr error
    | false =>
      refine Or.inr ⟨_, _, rfl, fun e found => refused write e ?_⟩
      rwa [List.getElem?_drop] at found
  · rw [error]
    exact Or.inr ⟨e, responses', rfl, stays⟩

theorem guarded_execute {responses : List Response} (h : Recovers responses) :
    Guarded responses fun sqlite => sqlite.execute .other := by
  rcases execute_other h with ⟨answers, recovers⟩ | ⟨e, error, stays⟩
  · exact Or.inl ⟨_, execute_ok answers, recovers⟩
  · exact Or.inr ⟨e, _, error, stays⟩

/-- SQLite is inside a transaction just when this one is active. -/
def InStep (txn txn' : SQLiteTxn) (sqlite : SQLite3) : Prop :=
  txn'.write = txn.write ∧ sqlite.inTransaction = txn'.active

/-- A guarded job keeps SQLite in step with the transaction. -/
theorem guard_spec {txn : SQLiteTxn} {responses : List Response}
    {job : SQLite3 → Except IsarError Unit × SQLite3}
    (guarded : txn.active = true → Guarded responses job) :
    let (result, txn', sqlite) := txn.guard ⟨txn.active, responses⟩ job
    InStep txn txn' sqlite ∧ (result = .ok () → txn' = txn ∧ Recovers sqlite.responses) := by
  unfold SQLiteTxn.guard
  cases active : txn.active with
  | false => exact ⟨⟨rfl, active.symm⟩, fun ok => by cases ok⟩
  | true =>
    rcases guarded active with ⟨responses', ok, recovers⟩ | ⟨e, responses', error, stays⟩
    · simp [ok, InStep, active, recovers]
    · rcases execute_rollback stays with done | ⟨e', failed⟩
      · simp [error, done, InStep]
      · simp [error, failed, InStep, active]

theorem next_spec (insert : SQLiteInsert) {responses : List Response}
    (h : insert.txn.active = true → Recovers responses) :
    let (_, insert', sqlite) := insert.next ⟨insert.txn.active, responses⟩
    InStep insert.txn insert'.txn sqlite := by
  have guarded := guard_spec fun active => guarded_execute (h active)
  unfold SQLiteInsert.next
  generalize insert.txn.guard ⟨insert.txn.active, responses⟩
    (fun sqlite => sqlite.execute .other) = answer at guarded ⊢
  obtain ⟨result, txn, inTransaction, responses⟩ := answer
  obtain ⟨inStep, ok⟩ := guarded
  cases result with
  | error e => exact inStep
  | ok _ =>
    obtain ⟨rfl, recovers⟩ := ok rfl
    cases active : insert.txn.active with
    | false => simpa [SQLiteTxn.getSqlite, active] using inStep
    | true =>
      obtain rfl : inTransaction = true := inStep.2.trans active
      simp only [getSqlite_write active]
      cases insert.txn.write with
      | false => exact inStep
      | true =>
        rcases execute_other recovers with ⟨answers, -⟩ | ⟨e, error, -⟩
        · rw [execute_ok answers]
          exact ⟨rfl, active.symm⟩
        · rw [error]
          exact ⟨rfl, active.symm⟩

theorem save_spec {insert : SQLiteInsert} {responses : List Response}
    (h : insert.txn.active = true → Recovers responses) :
    let (_, insert', sqlite) := insert.save ⟨insert.txn.active, responses⟩
    InStep insert.txn insert'.txn sqlite := by
  unfold SQLiteInsert.save
  by_cases room : 0 < insert.batchRemaining
  · rw [if_pos room]
    cases active : insert.txn.active with
    | false =>
      have outside := execute_other_outside responses
      generalize SQLite3.execute ⟨false, responses⟩ .other = answer at outside ⊢
      obtain ⟨result, inTransaction, responses⟩ := answer
      obtain rfl : inTransaction = false := outside
      cases result with
      | error e => exact ⟨rfl, active.symm⟩
      | ok _ =>
        simp only
        split
        · have next := @next_spec
            { insert with batchRemaining := insert.batchRemaining - 1 } responses
            fun open' => by simp [active] at open'
          rwa [show _ = false from active] at next
        · exact ⟨rfl, active.symm⟩
    | true =>
      rcases execute_other (h active) with ⟨answers, recovers⟩ | ⟨e, error, -⟩
      · rw [execute_ok answers]
        simp only
        split
        · have next := next_spec
            { insert with batchRemaining := insert.batchRemaining - 1 } fun _ => recovers
          rwa [show _ = true from active] at next
        · exact ⟨rfl, active.symm⟩
      · rw [error]
        exact ⟨rfl, active.symm⟩
  · rw [if_neg room]
    exact ⟨rfl, rfl⟩

theorem execute_answered (inTransaction : Bool) (responses : List Response) :
    Answers responses 0 ∨
    ∃ e sqlite, SQLite3.execute ⟨inTransaction, responses⟩ .other = (.error e, sqlite) := by
  cases responses with
  | nil => exact Or.inl fun _ _ => by simp
  | cons r responses =>
    cases r with
    | ok => exact Or.inl fun _ _ => by simp
    | error e rolledBack => exact Or.inr ⟨e, _, rfl⟩

/-- Unless the batch that `save` writes fails, the insert keeps its transaction. -/
theorem save_txn {insert : SQLiteInsert} {responses : List Response}
    (active : insert.txn.active = true)
    (batch : Answers responses 0 → Answers responses 1) :
    (insert.save ⟨true, responses⟩).2.1.txn = insert.txn := by
  unfold SQLiteInsert.save
  split
  · rcases execute_answered true responses with bound | ⟨e, sqlite, error⟩
    · have answers : Answers responses.tail 0 := by
        intro e rolledBack found
        rw [List.getElem?_tail] at found
        exact batch bound e rolledBack found
      rw [execute_ok bound]
      simp only
      split
      · simp only [SQLiteInsert.next, SQLiteTxn.guard, active, execute_ok answers]
        simp only [Bool.not_true, Bool.false_eq_true, if_false]
        split
        · rfl
        · split <;> rfl
      · rfl
    · rw [error]
  · rfl

/-! ## Calls that succeed -/

/-- An open write transaction. -/
def SQLiteTxn.Writes (txn : SQLiteTxn) : Prop := txn.write = true ∧ txn.active = true

/-- An insert that takes exactly `n` more objects. -/
def SQLiteInsert.Takes (insert : SQLiteInsert) (n : Nat) : Prop :=
  insert.remaining + insert.batchRemaining = n ∧
    (insert.batchRemaining = 0 → insert.remaining = 0)

variable {txn : SQLiteTxn} {insert : SQLiteInsert} {responses : List Response}
  {propertyCount n : Nat}

theorem SQLiteTxn.Writes.getSqlite (writes : txn.Writes) : txn.getSqlite true = .ok () := by
  simp [getSqlite_write writes.2, writes.1]

theorem guard_ok (writes : txn.Writes) (answers : Answers responses 0) :
    txn.guard ⟨true, responses⟩ (fun sqlite => sqlite.execute .other) =
      (.ok (), txn, ⟨true, responses.tail⟩) := by
  simp [SQLiteTxn.guard, writes.2, execute_ok answers]

theorem executeAll_ok (h : Succeeds responses) (n : Nat) :
    SQLite3.executeAll ⟨true, responses⟩ n = (.ok (), ⟨true, responses.drop n⟩) := by
  induction n generalizing responses with
  | zero => rfl
  | succ n ih => rw [SQLite3.executeAll, execute_ok (h.answers 0), ← List.drop_tail, ← ih h.tail]

theorem modify_ok (writes : txn.Writes) (h : Succeeds responses) (reads count : Nat) :
    txn.guard ⟨true, responses⟩ (modifyJob txn reads count) =
      (.ok (), txn, ⟨true, (responses.drop reads).drop count⟩) := by
  have h' : Succeeds (responses.drop reads) := fun r mem => h r (List.mem_of_mem_drop mem)
  simp [SQLiteTxn.guard, writes.2, modifyJob, executeAll_ok h, writes.getSqlite, executeAll_ok h']

/-- The next batch of a collection that fits into one statement. -/
theorem takes_batch (small : propertyCount < maxParamCount) (n : Nat) :
    SQLiteInsert.Takes ⟨txn, propertyCount, n - insertBatchSize propertyCount n,
      insertBatchSize propertyCount n⟩ n := by
  have fits : 0 < maxParamCount / (propertyCount + 1) := Nat.div_pos small (by omega)
  simp only [SQLiteInsert.Takes, insertBatchSize]
  omega

theorem new_ok (writes : txn.Writes) (answers : Answers responses 0) (count : Nat) :
    SQLiteInsert.new txn ⟨true, responses⟩ propertyCount count =
      (.ok ⟨txn, propertyCount, count - insertBatchSize propertyCount count,
        insertBatchSize propertyCount count⟩, ⟨true, responses.tail⟩) := by
  simp [SQLiteInsert.new, writes.getSqlite, execute_ok answers]

theorem next_ok (insert : SQLiteInsert) (writes : insert.txn.Writes) (h : Succeeds responses) :
    insert.next ⟨true, responses⟩ =
      (.ok (), ⟨insert.txn, insert.propertyCount,
        insert.remaining - insertBatchSize insert.propertyCount insert.remaining,
        insertBatchSize insert.propertyCount insert.remaining⟩,
      ⟨true, responses.tail.tail⟩) := by
  simp [SQLiteInsert.next, guard_ok writes (h.answers 0), writes.getSqlite,
    execute_ok (h.tail.answers 0)]

theorem save_ok (writes : insert.txn.Writes) (small : insert.propertyCount < maxParamCount)
    (takes : insert.Takes (n + 1)) (h : Succeeds responses) :
    ∃ insert' responses', insert.save ⟨true, responses⟩ = (.ok (), insert', ⟨true, responses'⟩) ∧
      Succeeds responses' ∧ insert'.txn = insert.txn ∧
      insert'.propertyCount = insert.propertyCount ∧ insert'.Takes n := by
  obtain ⟨sum, last⟩ := takes
  have room : 0 < insert.batchRemaining := by omega
  unfold SQLiteInsert.save
  rw [if_pos room, execute_ok (h.answers 0)]
  by_cases full : insert.batchRemaining - 1 = 0 ∧ 0 < insert.remaining
  · have left : insert.remaining = n := by omega
    simp only [if_pos full]
    refine ⟨_, _, next_ok { insert with batchRemaining := insert.batchRemaining - 1 } writes h.tail,
      h.tail.tail.tail, rfl, rfl, ?_⟩
    rw [← left]
    exact takes_batch small _
  · simp only [if_neg full]
    refine ⟨_, _, rfl, h.tail, rfl, rfl, ?_⟩
    simp only [SQLiteInsert.Takes]
    omega

theorem importObjects_ok (writes : insert.txn.Writes) (small : insert.propertyCount < maxParamCount)
    {objects : List ImportObject} (ids : ∀ o ∈ objects, o = .object true)
    (takes : insert.Takes objects.length) (h : Succeeds responses) :
    ∃ insert' responses',
      importObjects insert ⟨true, responses⟩ objects = (.ok insert', ⟨true, responses'⟩) ∧
      Succeeds responses' ∧ insert'.txn = insert.txn := by
  induction objects generalizing insert responses with
  | nil => exact ⟨insert, responses, rfl, h, rfl⟩
  | cons object objects ih =>
    obtain rfl := ids object (by simp)
    obtain ⟨insert', responses', saved, h', sameTxn, sameCount, takes'⟩ :=
      save_ok writes small takes h
    obtain ⟨insert'', responses'', rest, h'', sameTxn'⟩ := ih (by rwa [sameTxn])
      (by rwa [sameCount]) (fun o mem => ids o (by simp [mem])) takes' h'
    refine ⟨insert'', responses'', ?_, h'', sameTxn'.trans sameTxn⟩
    simp [importObjects, saved, rest]

theorem importBatch_ok (writes : txn.Writes) (small : propertyCount < maxParamCount)
    {objects : List ImportObject} (ids : ∀ o ∈ objects, o = .object true)
    (h : Succeeds responses) :
    ∃ responses', importBatch txn ⟨true, responses⟩ (some propertyCount) objects =
      (.ok txn, ⟨true, responses'⟩) ∧ Succeeds responses' := by
  obtain ⟨insert', responses', imported, h', sameTxn⟩ :=
    @importObjects_ok ⟨txn, propertyCount, _, _⟩ _ writes small objects ids
      (takes_batch small objects.length) h.tail
  refine ⟨responses'.tail, ?_, h'.tail⟩
  simp [importBatch, new_ok writes (h.answers 0), imported, SQLiteInsert.finish, sameTxn,
    guard_ok writes (h'.answers 0)]

theorem visitSeq_ok (writes : txn.Writes) (small : propertyCount < maxParamCount)
    {buffer objects : List ImportObject} (ids : ∀ o ∈ buffer ++ objects, o = .object true)
    (h : Succeeds responses) :
    ∃ responses', visitSeq (some propertyCount) true txn ⟨true, responses⟩ buffer objects =
      (.ok txn, ⟨true, responses'⟩) := by
  induction objects generalizing buffer responses with
  | nil =>
    rw [List.append_nil] at ids
    obtain ⟨responses', imported, -⟩ := importBatch_ok writes small ids h
    cases buffer with
    | nil => exact ⟨_, rfl⟩
    | cons object buffer => exact ⟨_, imported⟩
  | cons object objects ih =>
    simp only [visitSeq]
    split
    · obtain ⟨responses', imported, h'⟩ :=
        @importBatch_ok txn responses _ writes small (buffer ++ [object])
        (fun o mem => ids o (by grind)) h
      rw [imported]
      exact ih (fun o mem => ids o (by grind)) h'
    · exact ih (fun o mem => ids o (by simpa using mem)) h

end IsarPlus.Sqlite
