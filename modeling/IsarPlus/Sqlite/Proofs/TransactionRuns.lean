import IsarPlus.Sqlite.Proofs.Transactions

/-!
# Runs of an SQLite instance

After every call of an orderly run the active flag, the write mutex and SQLite's own state are
those of the one transaction that the caller holds, and are all cleared if it holds none.
-/

namespace IsarPlus.Sqlite

open SQLiteInstance

/-! ## Calls that lose no state -/

/-- The calls that leave the flag, the mutex and SQLite's state in step with what the caller holds,
by the state before them and the answers to their statements. -/
def Call.Orderly (s : SQLiteInstance) (responses : List Response) : Call → Prop
  | .beginTxn write => if s.txnActive then write = false else Answers responses 0
  | .commitTxn txn | .abortTxn txn => ∀ held ∈ s.txns[txn]?, held.active = true → Ends responses 0
  | .insert txn collectionIndex _ =>
    collectionIndex.toNat < s.collections.length ∧ Answers responses 0 ∧
      ∀ held ∈ s.txns[txn]?, held.Writes
  | .save i => ∀ held ∈ s.inserts[i]?, held.txn.active = true → Recovers responses
  | .finish i => Answers responses 0 ∧ ∀ held ∈ s.inserts[i]?, held.txn.active = true
  | .abortInsert _ => False
  | .update txn _ reads _ | .delete txn _ reads _ | .clear txn _ reads _
  | .queryUpdate txn _ reads _ | .queryDelete txn _ reads _ =>
    ∀ held ∈ s.txns[txn]?, held.active = true →
      Recovers responses ∧ (held.write = false → Stays responses reads)
  | .importJson txn collectionIndex wellFormed objects =>
    wellFormed = true ∧ (∀ o ∈ objects, o = .object true) ∧ Succeeds responses ∧
      (objects = [] ∨ (∃ propertyCount ∈ s.collections[collectionIndex.toNat]?,
        propertyCount < maxParamCount) ∧ ∀ held ∈ s.txns[txn]?, held.Writes)

/-- No job that runs under `guard` fails, so that none is rolled back. -/
def Call.Completes (s : SQLiteInstance) (responses : List Response) : Call → Prop
  | .save i => ∀ held ∈ s.inserts[i]?, held.txn.active = true →
      Answers responses 0 → Answers responses 1
  | .update txn _ _ _ | .delete txn _ _ _ | .clear txn _ _ _ | .queryUpdate txn _ _ _
  | .queryDelete txn _ _ _ =>
    ∀ held ∈ s.txns[txn]?, held.active = true → held.write = true ∧ Succeeds responses
  | _ => True

/-- A call on an instance together with the answers of SQLite. -/
abbrev Step := List Response × Call

/-- A call that returns. -/
def Returns (message : IsarError → String) (s : SQLiteInstance) (a : Step) (s' : SQLiteInstance) :
    Prop :=
  ∃ result, s.call message a.1 a.2 = some (s', result)

/-- A call that returns and is orderly. -/
def Orderly (message : IsarError → String) (s : SQLiteInstance) (a : Step) (s' : SQLiteInstance) :
    Prop :=
  a.2.Orderly s a.1 ∧ Returns message s a s'

/-- An orderly call without a guarded job that fails. -/
def Undisturbed (message : IsarError → String) (s : SQLiteInstance) (a : Step)
    (s' : SQLiteInstance) : Prop :=
  a.2.Completes s a.1 ∧ Orderly message s a s'

/-! ## The invariant -/

/-- The instance whose caller holds one transaction, by itself or within an insert. -/
def holding (collections : List Nat) (txn : SQLiteTxn) (txns : List SQLiteTxn)
    (inserts : List SQLiteInsert) : SQLiteInstance where
  collections := collections
  txnActive := true
  writeMutex := txn.write
  inTransaction := txn.active
  txns := txns
  inserts := inserts

/-- Nothing is held and nothing is set, or the states are those of the one live transaction, which
is open if no job was rolled back. -/
inductive Fits (undisturbed : Prop) : SQLiteInstance → Prop
  | idle (collections : List Nat) : Fits undisturbed (start collections)
  | txn (collections : List Nat) (txn : SQLiteTxn) (active : undisturbed → txn.active = true) :
    Fits undisturbed (holding collections txn [txn] [])
  | insert (collections : List Nat) (insert : SQLiteInsert)
      (active : undisturbed → insert.txn.active = true) :
    Fits undisturbed (holding collections insert.txn [] [insert])

variable {undisturbed : Prop} {collections : List Nat} {responses : List Response}
  {s' : SQLiteInstance} {result : Except IsarError Unit}

/-- Outside a transaction a `BEGIN` that is answered opens one. -/
theorem new_txn (answers : Answers responses 0) (write : Bool) :
    SQLiteTxn.new ⟨false, responses⟩ write = (.ok ⟨write, true⟩, ⟨true, responses.tail⟩) := by
  cases responses with
  | nil => rfl
  | cons r responses =>
    cases r with
    | ok => rfl
    | error e rolledBack => exact absurd rfl (answers e rolledBack)

/-- A call on an idle instance. -/
theorem fits_idle {message : IsarError → String} {c : Call}
    (orderly : c.Orderly (start collections) responses)
    (called : (start collections).call message responses c = some (s', result)) :
    Fits undisturbed s' := by
  cases c with
  | beginTxn write =>
    simp [SQLiteInstance.call, beginTxn, start, new_txn orderly] at called
    obtain ⟨rfl, -⟩ := called
    exact .txn collections ⟨write, true⟩ fun _ => rfl
  | _ =>
    simp [SQLiteInstance.call, commitTxn, abortTxn, SQLiteInstance.insert, SQLiteInstance.save,
      SQLiteInstance.finish, abortInsert, SQLiteInstance.modify, importJson, start] at called

theorem commit_ends (txn : SQLiteTxn) (ends : txn.active = true → Ends responses 0) :
    (txn.commit ⟨txn.active, responses⟩).2.inTransaction = false := by
  unfold SQLiteTxn.commit
  cases active : txn.active with
  | false => rfl
  | true => exact (execute_ends (ends active)).1

theorem abort_ends (txn : SQLiteTxn) (ends : txn.active = true → Ends responses 0) :
    (txn.abort ⟨txn.active, responses⟩).inTransaction = false := by
  unfold SQLiteTxn.abort
  cases active : txn.active with
  | false => rfl
  | true => exact (execute_ends (ends active)).2

/-- A modification by a held transaction. -/
theorem fits_modify {txn : SQLiteTxn} {collectionIndex : UInt16} {reads writes : Nat}
    (active : undisturbed → txn.active = true)
    (orderly : txn.active = true →
      Recovers responses ∧ (txn.write = false → Stays responses reads))
    (completes : undisturbed → txn.active = true → txn.write = true ∧ Succeeds responses)
    (called : (holding collections txn [txn] []).modify responses 0 collectionIndex reads writes =
      some (s', result)) :
    Fits undisturbed s' := by
  simp only [SQLiteInstance.modify, holding, List.getElem?_cons_zero, Option.bind_eq_bind,
    Option.bind_some, List.set_cons_zero] at called
  split at called
  · obtain ⟨rfl, -⟩ := called
    exact .txn collections txn active
  · have inStep := guard_spec fun active =>
      guarded_modifyJob active (orderly active).1 (orderly active).2 writes
    have same : undisturbed → (txn.guard ⟨txn.active, responses⟩
        (modifyJob txn reads writes)).2.1.active = true := by
      intro u
      obtain ⟨write, succeeds⟩ := completes u (active u)
      rw [active u, modify_ok ⟨write, active u⟩ succeeds]
      exact active u
    generalize txn.guard ⟨txn.active, responses⟩ (modifyJob txn reads writes) = answer
      at called inStep same
    obtain ⟨result', txn', inTransaction, responses'⟩ := answer
    obtain ⟨⟨write, inside⟩, -⟩ := inStep
    cases called
    have fits := Fits.txn collections txn' same
    rw [holding, write, ← inside] at fits
    exact fits

/-- An import by a held transaction. -/
theorem fits_importJson {message : IsarError → String} {txn : SQLiteTxn}
    {collectionIndex : UInt16} {wellFormed : Bool} {objects : List ImportObject}
    (active : undisturbed → txn.active = true)
    (orderly : (Call.importJson 0 collectionIndex wellFormed objects).Orderly
      (holding collections txn [txn] []) responses)
    (called : (holding collections txn [txn] []).importJson message responses 0 collectionIndex
      wellFormed objects = some (s', result)) :
    Fits undisturbed s' := by
  obtain ⟨rfl, ids, succeeds, possible⟩ := orderly
  have visited : ∃ responses', visitSeq collections[collectionIndex.toNat]? true txn
      ⟨txn.active, responses⟩ [] objects = (.ok txn, ⟨txn.active, responses'⟩) := by
    rcases possible with rfl | ⟨⟨propertyCount, found, small⟩, writes⟩
    · exact ⟨responses, rfl⟩
    · have writes : txn.Writes := writes txn rfl
      rw [show collections[collectionIndex.toNat]? = some propertyCount from found, writes.2]
      exact visitSeq_ok writes small (by simpa using ids) succeeds
  obtain ⟨responses', visited⟩ := visited
  simp only [importJson, holding, take, List.getElem?_cons_zero, Option.bind_eq_bind,
    Option.bind_some, List.eraseIdx_cons_zero, visited] at called
  cases called
  exact .txn collections txn active

/-- A call whose caller holds a transaction. -/
theorem fits_txn {message : IsarError → String} {c : Call} {txn : SQLiteTxn}
    (active : undisturbed → txn.active = true)
    (orderly : c.Orderly (holding collections txn [txn] []) responses)
    (completes : undisturbed → c.Completes (holding collections txn [txn] []) responses)
    (called : (holding collections txn [txn] []).call message responses c = some (s', result)) :
    Fits undisturbed s' := by
  cases c with
  | beginTxn write =>
    obtain rfl : write = false := orderly
    simp [SQLiteInstance.call, beginTxn, holding] at called
    obtain ⟨rfl, -⟩ := called
    exact .txn collections txn active
  | commitTxn i =>
    cases i with
    | succ i => simp [SQLiteInstance.call, commitTxn, holding] at called
    | zero =>
      have ended := commit_ends txn (orderly txn rfl)
      simp [SQLiteInstance.call, commitTxn, holding, take, ended] at called
      obtain ⟨rfl, -⟩ := called
      exact .idle collections
  | abortTxn i =>
    cases i with
    | succ i => simp [SQLiteInstance.call, abortTxn, holding] at called
    | zero =>
      have ended := abort_ends txn (orderly txn rfl)
      simp [SQLiteInstance.call, abortTxn, holding, take, ended] at called
      obtain ⟨rfl, -⟩ := called
      exact .idle collections
  | insert i collectionIndex count =>
    cases i with
    | succ i => simp [SQLiteInstance.call, SQLiteInstance.insert, holding] at called
    | zero =>
      obtain ⟨found, answers, writes⟩ := orderly
      have writes : txn.Writes := writes txn rfl
      have found : collectionIndex.toNat < collections.length := found
      simp [SQLiteInstance.call, SQLiteInstance.insert, holding, take, List.getElem?_eq_getElem found,
        writes.2, new_ok writes answers] at called
      obtain ⟨rfl, -⟩ := called
      have fits := Fits.insert collections ⟨txn, collections[collectionIndex.toNat],
        count - insertBatchSize collections[collectionIndex.toNat] count,
        insertBatchSize collections[collectionIndex.toNat] count⟩ active
      rw [holding, writes.2] at fits
      exact fits
  | update i collectionIndex reads writes | delete i collectionIndex reads writes
  | clear i collectionIndex reads writes | queryUpdate i collectionIndex reads writes
  | queryDelete i collectionIndex reads writes =>
    cases i with
    | succ i => simp [SQLiteInstance.call, SQLiteInstance.modify, holding] at called
    | zero => exact fits_modify active (orderly txn rfl) (fun u => completes u txn rfl) called
  | importJson i collectionIndex wellFormed objects =>
    cases i with
    | succ i => simp [SQLiteInstance.call, importJson, holding] at called
    | zero => exact fits_importJson active orderly called
  | _ =>
    simp [SQLiteInstance.call, SQLiteInstance.save, SQLiteInstance.finish, abortInsert, holding]
      at called

/-- A call whose caller holds an insert. -/
theorem fits_insert {message : IsarError → String} {c : Call} {insert : SQLiteInsert}
    (active : undisturbed → insert.txn.active = true)
    (orderly : c.Orderly (holding collections insert.txn [] [insert]) responses)
    (completes : undisturbed → c.Completes (holding collections insert.txn [] [insert]) responses)
    (called : (holding collections insert.txn [] [insert]).call message responses c =
      some (s', result)) :
    Fits undisturbed s' := by
  cases c with
  | beginTxn write =>
    obtain rfl : write = false := orderly
    simp [SQLiteInstance.call, beginTxn, holding] at called
    obtain ⟨rfl, -⟩ := called
    exact .insert collections insert active
  | save i =>
    cases i with
    | succ i => simp [SQLiteInstance.call, SQLiteInstance.save, holding] at called
    | zero =>
      have inStep := save_spec (orderly insert rfl)
      have same : undisturbed →
          (insert.save ⟨insert.txn.active, responses⟩).2.1.txn.active = true := by
        intro u
        rw [active u, save_txn (active u) (completes u insert rfl (active u))]
        exact active u
      simp only [SQLiteInstance.call, SQLiteInstance.save, holding, List.getElem?_cons_zero,
        Option.bind_eq_bind, Option.bind_some, List.set_cons_zero] at called
      generalize insert.save ⟨insert.txn.active, responses⟩ = answer at called inStep same
      obtain ⟨result', insert', inTransaction, responses'⟩ := answer
      obtain ⟨write, inside⟩ := inStep
      cases called
      have fits := Fits.insert collections insert' same
      rw [holding, write, ← inside] at fits
      exact fits
  | finish i =>
    cases i with
    | succ i => simp [SQLiteInstance.call, SQLiteInstance.finish, holding] at called
    | zero =>
      obtain ⟨answers, open'⟩ := orderly
      have open' : insert.txn.active = true := open' insert rfl
      have finished : insert.finish ⟨true, responses⟩ = (.ok insert.txn, ⟨true, responses.tail⟩) := by
        simp [SQLiteInsert.finish, SQLiteTxn.guard, open', execute_ok answers]
      simp [SQLiteInstance.call, SQLiteInstance.finish, holding, open', finished] at called
      obtain ⟨rfl, -⟩ := called
      have fits := Fits.txn collections insert.txn active
      rw [holding, open'] at fits
      exact fits
  | abortInsert i => exact orderly.elim
  | _ =>
    simp [SQLiteInstance.call, commitTxn, abortTxn, SQLiteInstance.insert, SQLiteInstance.modify,
      importJson, holding] at called

theorem fits_step {message : IsarError → String} {s : SQLiteInstance} {a : Step}
    (fits : Fits undisturbed s) (completes : undisturbed → a.2.Completes s a.1)
    (orderly : Orderly message s a s') : Fits undisturbed s' := by
  obtain ⟨orderly, result, called⟩ := orderly
  cases fits with
  | idle collections => exact fits_idle orderly called
  | txn collections txn active => exact fits_txn active orderly completes called
  | insert collections insert active => exact fits_insert active orderly completes called

/-! ## Runs -/

/-- The flag, the mutex and SQLite's state are those of the live transactions, and without one the
next transaction begins. -/
structure StatesFit (message : IsarError → String) (s : SQLiteInstance) : Prop where
  active : s.txnActive = true ↔ s.live.length = 1
  mutex : s.writeMutex = true ↔ ∃ txn ∈ s.live, txn.write = true
  inside : s.inTransaction = true ↔ ∃ txn ∈ s.live, txn.active = true
  begins : s.live = [] → ∀ write, ∃ s', s.call message [] (.beginTxn write) = some (s', .ok ())

theorem Fits.statesFit {s : SQLiteInstance} (message : IsarError → String)
    (fits : Fits undisturbed s) : StatesFit message s := by
  cases fits with
  | idle collections =>
    refine ⟨by simp [start, live], by simp [start, live], by simp [start, live], ?_⟩
    intro _ write
    have begun := @new_txn [] (fun _ _ => by simp) write
    exact ⟨_, by simp [SQLiteInstance.call, beginTxn, start, begun]; rfl⟩
  | txn collections txn active => constructor <;> simp [holding, live]
  | insert collections insert active => constructor <;> simp [holding, live]

theorem Fits.inside_iff_live {s : SQLiteInstance} (fits : Fits True s) :
    s.inTransaction = true ↔ s.live ≠ [] := by
  cases fits with
  | idle collections => simp [start, live]
  | txn collections txn active => simp [holding, live, active]
  | insert collections insert active => simp [holding, live, active]

/-- In an orderly run of an instance its states fit the transactions that its caller holds, and in
an undisturbed one SQLite is inside a transaction just when one is live. -/
theorem runs_keep_states (message : IsarError → String) (collections : List Nat)
    (actions : List Step) (s : SQLiteInstance) :
    (Run (Orderly message) (start collections) actions s → StatesFit message s) ∧
    (Run (Undisturbed message) (start collections) actions s →
      StatesFit message s ∧ (s.inTransaction = true ↔ s.live ≠ [])) := by
  constructor
  · intro run
    have fits : Fits False s :=
      run.invariant (fun _ _ _ fits step => fits_step fits False.elim step) (.idle collections)
    exact fits.statesFit message
  · intro run
    have fits : Fits True s :=
      run.invariant (fun _ _ _ fits step => fits_step fits (fun _ => step.1) step.2)
        (.idle collections)
    exact ⟨fits.statesFit message, fits.inside_iff_live⟩

/-- A write transaction that changes rows. -/
theorem update_keeps_states :
    ∃ s, Run (Undisturbed fun _ => "") (start [2])
        [([], .beginTxn true), ([.ok, .ok], .queryUpdate 0 0 1 1)] s ∧
      StatesFit (fun _ => "") s ∧ (s.inTransaction = true ↔ s.live ≠ []) := by
  have begun : Undisturbed (fun _ => "") (start [2]) ([], .beginTxn true)
      (holding [2] ⟨true, true⟩ [⟨true, true⟩] []) := by
    refine ⟨trivial, ?_, .ok (), rfl⟩
    intro e rolledBack found
    cases found
  have updated : Undisturbed (fun _ => "") (holding [2] ⟨true, true⟩ [⟨true, true⟩] [])
      ([.ok, .ok], .queryUpdate 0 0 1 1) (holding [2] ⟨true, true⟩ [⟨true, true⟩] []) := by
    refine ⟨?_, ?_, .ok (), rfl⟩
    · rintro held ⟨⟩ -
      exact ⟨rfl, by simp [Succeeds]⟩
    · rintro held ⟨⟩ -
      exact ⟨trivial, fun write => by cases write⟩
  have run := Run.cons begun (.cons updated .nil)
  exact ⟨_, run, (runs_keep_states _ [2] _ _).2 run⟩

/-- A `BEGIN` that fails leaves the flag set and the mutex locked, with no transaction: later reads
fail and later writes block. -/
theorem failed_begin_stays_active :
    ∃ s, Run (Returns fun _ => "") (start [])
        [([.error (.dbError 5 "database is locked") false], .beginTxn true)] s ∧
      ¬ StatesFit (fun _ => "") s ∧ s.live = [] ∧ s.txnActive = true ∧ s.writeMutex = true ∧
      (s.call (fun _ => "") [] (.beginTxn true)).isNone ∧
      s.call (fun _ => "") [] (.beginTxn false) = some (s, .error .transactionActive) := by
  refine ⟨⟨[], true, true, false, [], []⟩, .cons ⟨_, rfl⟩ .nil, ?_, rfl, rfl, rfl, rfl, rfl⟩
  intro fit
  exact absurd (fit.active.1 rfl) (by decide)

end IsarPlus.Sqlite
