import IsarPlus.Sqlite.Proofs.Inserts

/-!
# Bulk inserts

What `insert(count)`, `count` rounds of writes and `save`, and `finish` are to leave in the table,
and when they do. The last statement is executed by `finish` with whatever is bound, so that the
rows of objects that were never saved are stored as well.
-/

namespace IsarPlus.Sqlite
open Scalar Sql

/-- A call that writes, if anything, a property of the collection. -/
def InsertCall.Writable (c : SQLiteCollection) : InsertCall → Prop
  | .write index _ => index.toNat < 2 ^ 16 ∧ (c.getProperty index.toUInt16).isSome
  | .save _ => True

namespace SQLiteRowInsert

section
variable (codecs : Codecs) (all : List SQLiteCollection)

/-- The rows that saved objects are to have in the table. -/
def savedRows (c : SQLiteCollection) (objects : List (Int64 × List (UInt32 × Written))) :
    TableRows (List Value) :=
  objects.map fun object => (object.1, (rowOf codecs all c object).tail)

/-- With `count` rounds all objects are in the table, in their order. With less than `count` saved
objects the insert is reported as incomplete, and only rows of saved objects have been stored. -/
structure InsertContract (unique : List Value → List Value → Bool)
    (spare : TableRows (List Value) → Option Int64) (c : SQLiteCollection) (count : Nat)
    (calls : List InsertCall) (table : TableRows (List Value)) : Prop where
  complete : (InsertCall.objects [] calls).length = count →
    ((new c count).run codecs all calls).2 = count ∧
      ((new c count).run codecs all calls).1.finishTable unique spare table =
        .ok (table.insertRows unique (savedRows codecs all c (InsertCall.objects [] calls))).1
  incomplete : ((new c count).run codecs all calls).2 < count →
    ((new c count).run codecs all calls).1.finishTable unique spare table =
        fail .insertIncomplete ∧
      ∀ row ∈ ((new c count).run codecs all calls).1.rows,
        row ∈ ((InsertCall.objects [] calls).take ((new c count).run codecs all calls).2).map
          (rowOf codecs all c)

end

variable {codecs : Codecs} {all : List SQLiteCollection} {insert : SQLiteRowInsert}

/-! ## The table -/

section
variable (unique : List Value → List Value → Bool)
  (spare : TableRows (List Value) → Option Int64)

theorem newRowid_ne_incomplete (table : TableRows (List Value)) :
    newRowid spare table ≠ fail .insertIncomplete := by
  unfold newRowid
  split
  · exact nofun
  · split
    · exact nofun
    · split <;> exact nofun

theorem store_ne_incomplete (table : TableRows (List Value)) (row : List Value) :
    store unique spare table row ≠ fail .insertIncomplete := by
  unfold store
  split
  · exact nofun
  · cases h : newRowid spare table with
    | ok id => exact nofun
    | error fault =>
      intro same
      cases same
      exact newRowid_ne_incomplete spare table h

/-- No statement fails for objects that are missing. -/
theorem finishTable_ne_incomplete (insert : SQLiteRowInsert) (table : TableRows (List Value)) :
    insert.finishTable unique spare table ≠ fail .insertIncomplete := by
  unfold finishTable
  induction insert.finish generalizing table with
  | nil => exact nofun
  | cons row rows ih =>
    rw [List.foldlM_cons]
    cases h : store unique spare table row with
    | ok table' => exact ih table'
    | error fault =>
      intro same
      cases same
      exact store_ne_incomplete unique spare table row h

/-- Rows of objects are stored one after the other, as `INSERT OR REPLACE` does it. -/
theorem store_rows (c : SQLiteCollection) (objects : List (Int64 × List (UInt32 × Written)))
    (table : TableRows (List Value)) :
    (objects.map (rowOf codecs all c)).foldlM (store unique spare) table =
      .ok (table.insertRows unique (savedRows codecs all c objects)).1 := by
  induction objects generalizing table with
  | nil => rfl
  | cons object objects ih =>
    exact ih (table.insertRow unique object.1 (rowOf codecs all c object).tail).1

end

/-! ## Runs -/

/-- Without place in a statement nothing is ever saved. -/
theorem run_full (none_left : insert.batchRemaining = 0) (saved : Nat) (calls : List InsertCall) :
    (calls.foldl (call codecs all) (insert, saved)).2 = saved := by
  induction calls generalizing insert with
  | nil => rfl
  | cons next calls ih =>
    cases next with
    | write index value =>
      obtain ⟨params, eq⟩ := frame_write codecs all insert index value
      apply ih
      rw [eq]
      exact none_left
    | save id =>
      have fails : insert.save id = fail .unsupportedOperation := by
        rw [SQLiteRowInsert.save, if_neg (by omega)]
      have step : call codecs all (insert, saved) (.save id) = (insert, saved) := by
        simp only [call, fails, fail]
      rw [List.foldl_cons, step]
      exact ih none_left

theorem Progress.length_le {c : SQLiteCollection} {count : Nat}
    {done : List (Int64 × List (UInt32 × Written))} {writes : List (UInt32 × Written)}
    (progress : Progress codecs all c count insert done writes) : done.length ≤ count := by
  have := progress.total
  omega

/-- A run saves the first objects, as many as there is room for. -/
theorem Progress.run {c : SQLiteCollection} {count : Nat}
    {done : List (Int64 × List (UInt32 × Written))} {writes : List (UInt32 × Written)}
    (progress : Progress codecs all c count insert done writes) {calls : List InsertCall}
    (writable : ∀ call ∈ calls, call.Writable c) :
    ∃ writes', Progress codecs all c count (calls.foldl (call codecs all) (insert, done.length)).1
        ((done ++ InsertCall.objects writes calls).take count) writes' ∧
      (calls.foldl (call codecs all) (insert, done.length)).2 =
        min count (done.length + (InsertCall.objects writes calls).length) := by
  induction calls generalizing insert done writes with
  | nil =>
    have le := progress.length_le
    refine ⟨writes, ?_, (Nat.min_eq_right le).symm⟩
    rw [InsertCall.objects, List.append_nil, List.take_of_length_le le]
    exact progress
  | cons next calls ih =>
    have writable' : ∀ call ∈ calls, call.Writable c :=
      fun call mem => writable call (List.mem_cons_of_mem _ mem)
    cases next with
    | write index value => exact ih (progress.write (writable _ List.mem_cons_self)) writable'
    | save id =>
      by_cases room : 0 < insert.batchRemaining
      · obtain ⟨insert', saves, progress'⟩ := progress.save room id
        have length : (done ++ [(id, writes)]).length = done.length + 1 := List.length_append
        obtain ⟨writes', result, saved⟩ := ih progress' writable'
        have step : call codecs all (insert, done.length) (.save id) =
            (insert', (done ++ [(id, writes)]).length) := by
          simp only [call, saves, length]
        rw [List.append_assoc] at result
        rw [List.foldl_cons, step]
        refine ⟨writes', result, saved.trans ?_⟩
        rw [length, InsertCall.objects, List.length_cons, Nat.add_assoc, Nat.add_comm 1]
      · have fails : insert.save id = fail .unsupportedOperation := by
          rw [SQLiteRowInsert.save, if_neg room]
        have step : call codecs all (insert, done.length) (.save id) = (insert, done.length) := by
          simp only [call, fails, fail]
        have none_left := Nat.eq_zero_of_not_pos room
        have full : done.length = count := by
          have total := progress.total
          have none_remaining := progress.last none_left
          omega
        -- What has been written is lost, which no row of the statement shows.
        have progress' : Progress codecs all c count insert done [] :=
          { progress with cells := fun room' => absurd room' room }
        obtain ⟨writes', result, saved⟩ := ih progress' writable'
        rw [List.foldl_cons, step]
        refine ⟨writes', ?_, saved.trans ?_⟩
        · rw [List.take_append_of_le_length (Nat.le_of_eq full.symm)] at result ⊢
          exact result
        · rw [full, Nat.min_eq_left (Nat.le_add_right _ _), Nat.min_eq_left (Nat.le_add_right _ _)]

/-- A bulk insert keeps its promise exactly for collections whose rows fit into a statement, when
all objects are saved. -/
theorem insert_exact (codecs : Codecs) (all : List SQLiteCollection)
    (unique : List Value → List Value → Bool) (spare : TableRows (List Value) → Option Int64)
    {c : SQLiteCollection} {count : Nat} {calls : List InsertCall} (table : TableRows (List Value))
    (some_ : 0 < count) (writable : ∀ call ∈ calls, call.Writable c) :
    InsertContract codecs all unique spare c count calls table ↔
      c.properties.length < maxParamCount ∧ count ≤ (InsertCall.objects [] calls).length := by
  have incomplete (contract : InsertContract codecs all unique spare c count calls table) :
      count ≤ ((new c count).run codecs all calls).2 := by
    apply Nat.le_of_not_lt
    intro less
    exact finishTable_ne_incomplete unique spare _ table (contract.incomplete less).1
  by_cases fits : c.properties.length < maxParamCount
  · have start : Progress codecs all c count (new c count) [] [] := progress_new fits some_
    obtain ⟨writes, progress, saved⟩ := start.run writable
    rw [List.length_nil, Nat.zero_add] at saved
    change ((new c count).run codecs all calls).2 = _ at saved
    refine ⟨fun contract => ⟨fits, ?_⟩, fun ⟨_, enough⟩ => ⟨fun all_ => ?_, fun less => ?_⟩⟩
    · have := incomplete contract
      omega
    · refine ⟨by omega, ?_⟩
      rw [List.nil_append, List.take_of_length_le (Nat.le_of_eq all_)] at progress
      have rows := progress.finish all_
      rw [finishTable]
      exact (congrArg (List.foldlM (store unique spare) table) rows).trans
        (store_rows unique spare c _ table)
    · omega
  · have none_left : (new c count).batchRemaining = 0 := by
      have zero : maxParamCount / (c.properties.length + 1) = 0 := Nat.div_eq_of_lt (by omega)
      show min count (maxParamCount / (c.properties.length + 1)) = 0
      rw [zero, Nat.min_zero]
    have saved : ((new c count).run codecs all calls).2 = 0 := run_full none_left 0 calls
    refine ⟨fun contract => ?_, fun ⟨fits', _⟩ => absurd fits' fits⟩
    have := incomplete contract
    omega

/-- A collection of which a statement takes one row. -/
def drafts : SQLiteCollection where
  name := "Draft"
  idName := some "id"
  properties := (List.range 600).map fun i => ⟨s!"line{i}", .string, none⟩

/-- Codecs for objects without any JSON. -/
def noJson : Codecs where
  toString := fun _ => []
  fromStr := fun _ => none
  encode := fun _ => []
  decode := fun _ => none

theorem insert_on_drafts :
    InsertContract noJson [drafts] (fun _ _ => false) (fun _ => none) drafts 2
      [.write 1 (.string ['a']), .save 7, .write 2 (.string ['b']), .save 8] [] := by
  have writable : ∀ call ∈ [InsertCall.write 1 (.string ['a']), .save 7,
      .write 2 (.string ['b']), .save 8], call.Writable drafts := by
    simp only [List.forall_mem_cons, InsertCall.Writable]
    exact ⟨by decide +kernel, trivial, by decide +kernel, trivial, nofun⟩
  have fits : drafts.properties.length < maxParamCount := by
    rw [drafts, List.length_map, List.length_range]
    decide
  exact (insert_exact noJson [drafts] (fun _ _ => false) (fun _ => none) [] (by decide) writable).mpr
    ⟨fits, by decide⟩

/-- Of two objects one is saved: its row is stored, and one more that is empty. -/
theorem unsaved_row_stored :
    let memo : SQLiteCollection := ⟨"Memo", some "id", [⟨"text", .string, none⟩]⟩
    let calls := [InsertCall.write 1 (.string ['a']), .save 7]
    ((new memo 2).run noJson [memo] calls).2 = 1 ∧
      ((new memo 2).run noJson [memo] calls).1.finishTable (fun _ _ => false) (fun _ => none) [] =
        .ok [(7, [.text ['a']]), (8, [.null])] ∧
      ¬ InsertContract noJson [memo] (fun _ _ => false) (fun _ => none) memo 2 calls [] := by
  refine ⟨by decide, by decide, fun contract => ?_⟩
  exact finishTable_ne_incomplete _ _ _ _ (contract.incomplete (by decide)).1

end SQLiteRowInsert

end IsarPlus.Sqlite
