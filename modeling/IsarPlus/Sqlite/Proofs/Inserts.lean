import IsarPlus.Sqlite.Proofs.WrittenConditions
import IsarPlus.Sqlite.Insert

/-!
# The rows of an insert

Whatever the other objects of a batch are, the row of an object holds its id and what was written of
it, and null in all other columns.
-/

namespace IsarPlus.Sqlite
open Scalar Sql

section
variable (codecs : Codecs) (all : List SQLiteCollection)

/-- What a call binds for a property; nothing for an object whose target does not exist. -/
def Written.bound (p : SQLiteProperty) (k : UInt16) : Written → Option Value
  | .null => some .null
  | .bool value => some (.integer (if value then 1 else 0))
  | .byte value => some (.integer (Int64.ofInt value.toNat))
  | .int value => some (if value ≠ nullInt then .integer value.toInt64 else .null)
  | .float value => some (if value.isNan then .null else .real value.toF64)
  | .long value => some (if value ≠ nullLong then .integer value else .null)
  | .double value => some (if value.isNan then .null else .real value)
  | .string value => some (.text value)
  | .byteList value => some (.blob value)
  | .object writes =>
    ((Written.object writes).json codecs.encode all p k).map fun json => .text (codecs.toString json)
  | .list length writes =>
    ((Written.list length writes).json codecs.encode all p k).map fun json =>
      .text (codecs.toString json)

/-- The row of an object. -/
structure RowOf (c : SQLiteCollection) (object : Int64 × List (UInt32 × Written))
    (row : List Value) : Prop where
  id : row[0]? = some (.integer object.1)
  written : ∀ (index : UInt32) value, (index, value) ∈ object.2 → ∀ p,
    c.getProperty index.toUInt16 = some p → row[index.toNat]? =
      some (columnValue p.dataType ((value.bound codecs all p index.toUInt16).getD .null))
  absent : ∀ index : UInt32, index ≠ 0 → index ∉ object.2.map Prod.fst →
    index.toNat ≤ c.properties.length → row[index.toNat]? = some .null

/-- All writes are for properties of the collection. -/
def Writable (c : SQLiteCollection) (writes : List (UInt32 × Written)) : Prop :=
  ∀ write ∈ writes, write.1.toNat < 2 ^ 16 ∧ (c.getProperty write.1.toUInt16).isSome

end

theorem columnValue_null (t : DataType) : columnValue t .null = .null := by
  cases t <;> rfl

theorem index_le_of_getProperty {c : SQLiteCollection} {index : UInt32} {p : SQLiteProperty}
    (small : index.toNat < 2 ^ 16) (found : c.getProperty index.toUInt16 = some p) :
    0 < index.toNat ∧ index.toNat ≤ c.properties.length ∧
      c.properties[index.toNat - 1]? = some p := by
  have same : index.toUInt16.toNat = index.toNat := by
    rw [UInt32.toNat_toUInt16, Nat.mod_eq_of_lt small]
  unfold SQLiteCollection.getProperty at found
  obtain ⟨nonzero, at'⟩ := Option.ite_none_right_eq_some.mp found
  rw [same] at at'
  have bound := (List.getElem?_eq_some_iff.mp at').1
  have positive : index.toNat ≠ 0 := fun zero =>
    nonzero (UInt16.toNat_inj.mp (by rw [same, zero]; rfl))
  exact ⟨by omega, by omega, at'⟩

namespace SQLiteRowInsert

variable {codecs : Codecs} {all : List SQLiteCollection} {insert insert' : SQLiteRowInsert}

/-- The place of the current row in its statement. -/
def place (insert : SQLiteRowInsert) : Nat := insert.batchSize - insert.batchRemaining

/-- The cells of the current row. -/
def cell (insert : SQLiteRowInsert) (index : Nat) : Value :=
  insert.params (insert.place * insert.width + index)

theorem frame_bind (insert : SQLiteRowInsert) (col : Nat) (value : Value) :
    ∃ params, insert.bind col value = { insert with params } := by
  unfold bind
  split <;> exact ⟨_, rfl⟩

variable (codecs all)

/-- Calls change the parameters only. -/
theorem frame_write (insert : SQLiteRowInsert) (index : UInt32) (value : Written) :
    ∃ params, insert.write codecs all index value = { insert with params } := by
  cases value with
  | object writes | list length writes =>
    simp only [write]
    split
    · exact frame_bind ..
    · exact ⟨_, rfl⟩
  | _ => exact frame_bind ..

variable {codecs all}

/-- Only cells of the current row have changed. -/
structure Within (insert insert' : SQLiteRowInsert) : Prop where
  frame : ∃ params, insert' = { insert with params }
  params : ∀ k, k < insert.place * insert.width ∨ (insert.place + 1) * insert.width ≤ k →
    insert'.params k = insert.params k

theorem Within.refl (insert : SQLiteRowInsert) : insert.Within insert :=
  ⟨⟨insert.params, rfl⟩, fun _ _ => rfl⟩

/-- A parameter of the current row. -/
theorem bind_cell {index : Nat} (room : 0 < insert.batchRemaining)
    (le : insert.batchRemaining ≤ insert.batchSize) (inside : index < insert.width)
    (value : Value) :
    insert.Within (insert.bind (insert.propertyIndex index) value) ∧
      ∀ k, (insert.bind (insert.propertyIndex index) value).cell k =
        if k = index then value else insert.cell k := by
  have last : (insert.place + 1) * insert.width ≤ insert.statementRows * insert.width :=
    Nat.mul_le_mul_right _ (by unfold place statementRows; omega)
  have next : (insert.place + 1) * insert.width = insert.place * insert.width + insert.width :=
    Nat.succ_mul _ _
  have at_ : insert.propertyIndex index = insert.place * insert.width + index := rfl
  have eq : insert.bind (insert.propertyIndex index) value =
      { insert with
        params := Function.update insert.params (insert.place * insert.width + index) value } := by
    rw [bind, at_, if_pos (by omega)]
  rw [eq]
  refine ⟨⟨⟨_, rfl⟩, fun k outside => Function.update_of_ne (by omega) _ _⟩, fun k => ?_⟩
  show Function.update insert.params (insert.place * insert.width + index) value
    (insert.place * insert.width + k) = _
  rw [Function.update_apply]
  by_cases same : k = index
  · rw [if_pos (by rw [same]), if_pos same]
  · rw [if_neg (by omega), if_neg same]
    rfl

/-- A call for a property. -/
theorem write_eq {index : UInt32} {p : SQLiteProperty} (small : index.toNat < 2 ^ 16)
    (found : insert.collection.getProperty index.toUInt16 = some p) (value : Written) :
    insert.write codecs all index value =
      match value.bound codecs all p index.toUInt16 with
      | some bound => insert.bind (insert.propertyIndex index.toNat) bound
      | none => insert := by
  have same : index.toNat % 65536 = index.toNat := Nat.mod_eq_of_lt small
  cases value with
  | object writes =>
    simp only [write, beginObject, found, Written.bound, Written.json, Option.bind_eq_bind,
      Option.bind_some]
    cases target : p.collectionIndex.bind fun index => all[index.toNat]? with
    | none =>
      cases index' : p.collectionIndex with
      | none => simp
      | some i => simp_all
    | some c =>
      obtain ⟨i, index', there⟩ := Option.bind_eq_some_iff.mp target
      simp [index', there, endObject, writeString, writeValue, same]
  | list length writes =>
    simp [write, beginList, found, endList, writeString, writeValue, same, Written.bound,
      Written.json]
  | _ => rfl

variable (codecs all)

/-- A call changes the cell of its property only. -/
theorem write_cell {index : UInt32} {p : SQLiteProperty} (room : 0 < insert.batchRemaining)
    (le : insert.batchRemaining ≤ insert.batchSize) (small : index.toNat < 2 ^ 16)
    (found : insert.collection.getProperty index.toUInt16 = some p) (value : Written) :
    insert.Within (insert.write codecs all index value) ∧
      ∀ k, (insert.write codecs all index value).cell k =
        if k = index.toNat then
          (value.bound codecs all p index.toUInt16).getD (insert.cell k)
        else insert.cell k := by
  obtain ⟨-, bound, -⟩ := index_le_of_getProperty small found
  rw [write_eq small found]
  cases value.bound codecs all p index.toUInt16 with
  | some v =>
    simp only [Option.getD_some]
    exact bind_cell room le (by unfold width; omega) v
  | none =>
    simp only [Option.getD_none, ite_self]
    exact ⟨.refl insert, fun _ => trivial⟩

/-- What is left of the writes of a property: the last one that binds anything counts. -/
def writtenValue (p : SQLiteProperty) (index : Nat) (writes : List (UInt32 × Written)) : Value :=
  writes.foldl (fun cell write =>
    if index = write.1.toNat then (write.2.bound codecs all p write.1.toUInt16).getD cell
    else cell) .null

/-- The row that an object is to have. -/
def rowOf (c : SQLiteCollection) (object : Int64 × List (UInt32 × Written)) : List Value :=
  .integer object.1 :: c.properties.mapIdx fun i p =>
    columnValue p.dataType (writtenValue codecs all p (i + 1) object.2)

/-- An insert that has saved some objects and written some properties of the next one. -/
structure Progress (c : SQLiteCollection) (count : Nat) (insert : SQLiteRowInsert)
    (done : List (Int64 × List (UInt32 × Written))) (writes : List (UInt32 × Written)) : Prop where
  collection : insert.collection = c
  total : insert.remaining + insert.batchRemaining + done.length = count
  le : insert.batchRemaining ≤ insert.batchSize
  fits : insert.batchSize ≤ maxParamCount / insert.width
  positive : 0 < insert.batchSize
  last : insert.batchRemaining = 0 → insert.remaining = 0
  cells : 0 < insert.batchRemaining → ∀ i p, c.properties[i]? = some p →
    insert.cell (i + 1) = writtenValue codecs all p (i + 1) writes
  fresh : ∀ k, (insert.place + 1) * insert.width ≤ k → insert.params k = .null
  rows : insert.rows ++ (List.range insert.place).map insert.row = done.map (rowOf codecs all c)

variable {codecs all}

/-! ## Rows -/

theorem row_congr (frame : ∃ params, insert' = { insert with params }) {place : Nat}
    (same : ∀ k, k < insert.width → insert'.params (place * insert.width + k) =
      insert.params (place * insert.width + k)) : insert'.row place = insert.row place := by
  obtain ⟨params, rfl⟩ := frame
  have width : ({ insert with params } : SQLiteRowInsert).width = insert.width := rfl
  have zero := same 0 (Nat.succ_pos _)
  simp only [Nat.add_zero] at zero
  simp only [row, width, zero, List.cons.injEq, true_and]
  apply List.ext_getElem?
  intro i
  simp only [List.getElem?_mapIdx]
  cases found : insert.collection.properties[i]? with
  | none => rfl
  | some p =>
    have lt := (List.getElem?_eq_some_iff.mp found).1
    have cell := same (i + 1) (by unfold SQLiteRowInsert.width; omega)
    simp only at cell
    rw [Option.map_some, Option.map_some, cell]

/-- The rows in front of the current one stay as they are. -/
theorem Within.rows (within : insert.Within insert') :
    (List.range insert.place).map insert'.row = (List.range insert.place).map insert.row := by
  apply List.map_congr_left
  intro j mem
  have lt := List.mem_range.mp mem
  have below : (j + 1) * insert.width ≤ insert.place * insert.width := Nat.mul_le_mul_right _ lt
  rw [Nat.succ_mul] at below
  exact row_congr within.frame fun k inside => within.params _ (Or.inl (by omega))

/-- The row of a place whose cells are known. -/
theorem row_eq_rowOf {object : Int64 × List (UInt32 × Written)} {place : Nat}
    (id : insert.params (place * insert.width) = .integer object.1)
    (cells : ∀ i p, insert.collection.properties[i]? = some p →
      insert.params (place * insert.width + (i + 1)) =
        writtenValue codecs all p (i + 1) object.2) :
    insert.row place = rowOf codecs all insert.collection object := by
  simp only [row, rowOf, id, List.cons.injEq, true_and]
  apply List.ext_getElem?
  intro i
  simp only [List.getElem?_mapIdx]
  cases found : insert.collection.properties[i]? with
  | none => rfl
  | some p => rw [Option.map_some, Option.map_some, cells i p found]

/-! ## Steps -/

theorem progress_new {c : SQLiteCollection} {count : Nat} (fits : c.properties.length < maxParamCount)
    (some_ : 0 < count) : Progress codecs all c count (new c count) [] [] where
  collection := rfl
  total := by
    have : batchOf c count ≤ count := Nat.min_le_left _ _
    simp only [new, List.length_nil]
    omega
  le := le_rfl
  fits := Nat.min_le_right _ _
  positive := Nat.lt_min.mpr ⟨some_, Nat.div_pos fits (Nat.succ_pos _)⟩
  last := fun zero => by
    have positive : 0 < batchOf c count :=
      Nat.lt_min.mpr ⟨some_, Nat.div_pos fits (Nat.succ_pos _)⟩
    exact absurd zero (Nat.pos_iff_ne_zero.mp positive)
  cells := fun _ _ _ _ => rfl
  fresh := fun _ _ => rfl
  rows := by simp [new, place]

/-- Behind the last row of the statement nothing is bound. -/
theorem write_past {index : UInt32} {p : SQLiteProperty} (full : insert.batchRemaining = 0)
    (positive : 0 < insert.batchSize) (small : index.toNat < 2 ^ 16)
    (found : insert.collection.getProperty index.toUInt16 = some p) (value : Written) :
    insert.write codecs all index value = insert := by
  rw [write_eq small found]
  cases value.bound codecs all p index.toUInt16 with
  | none => rfl
  | some bound =>
    have rows : insert.statementRows = insert.batchSize - insert.batchRemaining := by
      unfold statementRows
      omega
    show insert.bind (insert.propertyIndex index.toNat) bound = insert
    rw [bind, if_neg (by rw [rows, propertyIndex]; omega)]

theorem writtenValue_append (p : SQLiteProperty) (k : Nat) (writes : List (UInt32 × Written))
    (write : UInt32 × Written) : writtenValue codecs all p k (writes ++ [write]) =
      if k = write.1.toNat then
        (write.2.bound codecs all p write.1.toUInt16).getD (writtenValue codecs all p k writes)
      else writtenValue codecs all p k writes := by
  rw [writtenValue, List.foldl_append]
  rfl

/-- A call that writes a property. -/
theorem Progress.write {c : SQLiteCollection} {count : Nat}
    {done : List (Int64 × List (UInt32 × Written))} {writes : List (UInt32 × Written)}
    (progress : Progress codecs all c count insert done writes) {index : UInt32} {value : Written}
    (writable : index.toNat < 2 ^ 16 ∧ (c.getProperty index.toUInt16).isSome) :
    Progress codecs all c count (insert.write codecs all index value) done
      (writes ++ [(index, value)]) := by
  obtain ⟨collection, total, le, fits, positive, last, cells, fresh, rows⟩ := progress
  subst collection
  obtain ⟨small, isSome⟩ := writable
  obtain ⟨p, found⟩ := Option.isSome_iff_exists.mp isSome
  by_cases room : 0 < insert.batchRemaining
  · obtain ⟨within, cells'⟩ := write_cell codecs all room le small found value
    have rows' := within.rows
    have outside := within.params
    obtain ⟨params, eq⟩ := within.frame
    rw [eq] at cells' rows' outside ⊢
    have written (i : Nat) (q : SQLiteProperty) (at_ : insert.collection.properties[i]? = some q) :
        ({ insert with params } : SQLiteRowInsert).cell (i + 1) =
          writtenValue codecs all q (i + 1) (writes ++ [(index, value)]) := by
      rw [cells', cells room i q at_, writtenValue_append]
      by_cases same : i + 1 = index.toNat
      · have other := (index_le_of_getProperty small found).2.2
        rw [← same, Nat.add_sub_cancel, at_] at other
        cases other
        rw [if_pos same]
      · rw [if_neg same]
        exact (if_neg same).symm
    exact ⟨rfl, total, le, fits, positive, last, fun _ => written,
      fun k inside => (outside k (Or.inr inside)).trans (fresh k inside),
      (congrArg (insert.rows ++ ·) rows').trans rows⟩
  · rw [write_past (Nat.eq_zero_of_not_pos room) positive small found]
    exact ⟨rfl, total, le, fits, positive, last, fun room' => absurd room' room, fresh, rows⟩

/-- The row of an object is complete. -/
theorem Progress.advance {c : SQLiteCollection} {count : Nat}
    {done : List (Int64 × List (UInt32 × Written))} {writes : List (UInt32 × Written)}
    (progress : Progress codecs all c count insert done writes) (room : 0 < insert.batchRemaining)
    (id : Int64) :
    let saved := insert.bind (insert.propertyIndex 0) (.integer id)
    saved.rows ++ (List.range (insert.place + 1)).map saved.row =
      (done ++ [(id, writes)]).map (rowOf codecs all c) ∧
    ∀ k, (insert.place + 1) * insert.width ≤ k → saved.params k = .null := by
  obtain ⟨collection, -, le, -, -, -, cells, fresh, rows⟩ := progress
  subst collection
  obtain ⟨within, cells'⟩ := bind_cell room le (Nat.succ_pos _ : 0 < insert.width) (.integer id)
  have before := within.rows
  have outside := within.params
  obtain ⟨params, eq⟩ := within.frame
  show (insert.bind (insert.propertyIndex 0) (.integer id)).rows ++ _ = _ ∧ _
  rw [eq] at cells' before outside ⊢
  have current : ({ insert with params } : SQLiteRowInsert).row insert.place =
      rowOf codecs all insert.collection (id, writes) := by
    apply @row_eq_rowOf codecs all { insert with params } (id, writes) insert.place
    · have first := cells' 0
      rw [if_pos rfl] at first
      exact first
    · intro i p found
      have cell := cells' (i + 1)
      rw [if_neg (Nat.succ_ne_zero i), cells room i p found] at cell
      exact cell
  refine ⟨?_, fun k inside => (outside k (Or.inr inside)).trans (fresh k inside)⟩
  rw [List.range_succ, List.map_append, List.map_append, before, ← List.append_assoc]
  show insert.rows ++ List.map insert.row (List.range insert.place) ++ _ = _
  rw [rows, List.map_singleton, List.map_singleton, current]

/-- While objects are left, `save` completes a row; a full batch is inserted. -/
theorem Progress.save {c : SQLiteCollection} {count : Nat}
    {done : List (Int64 × List (UInt32 × Written))} {writes : List (UInt32 × Written)}
    (progress : Progress codecs all c count insert done writes) (room : 0 < insert.batchRemaining)
    (id : Int64) : ∃ insert', insert.save id = .ok insert' ∧
      Progress codecs all c count insert' (done ++ [(id, writes)]) [] := by
  obtain ⟨rows, fresh⟩ := progress.advance room id
  obtain ⟨collection, total, le, fits, positive, last, -, -, -⟩ := progress
  obtain ⟨params, eq⟩ := frame_bind insert (insert.propertyIndex 0) (.integer id)
  subst collection
  simp only [SQLiteRowInsert.save, if_pos room]
  rw [eq] at rows fresh ⊢
  have length : (done ++ [(id, writes)]).length = done.length + 1 := List.length_append
  have place : ({ insert with params, batchRemaining := insert.batchRemaining - 1 } :
      SQLiteRowInsert).place = insert.place + 1 := by
    simp only [SQLiteRowInsert.place]
    omega
  by_cases more : insert.batchRemaining - 1 = 0 ∧ 0 < insert.remaining
  · refine ⟨_, if_pos more, ?_⟩
    have least : batchOf insert.collection insert.remaining ≤ insert.remaining :=
      Nat.min_le_left _ _
    have full : insert.place + 1 = insert.statementRows := by
      unfold SQLiteRowInsert.place statementRows
      omega
    have room' : 0 < batchOf insert.collection insert.remaining :=
      Nat.lt_min.mpr ⟨more.2, Nat.lt_of_lt_of_le positive fits⟩
    refine ⟨rfl, ?_, le_rfl, Nat.min_le_right _ _, room', fun zero => ?_, fun _ _ _ _ => rfl,
      fun _ _ => rfl, ?_⟩
    · simp only [SQLiteRowInsert.next]
      omega
    · exact absurd zero (Nat.pos_iff_ne_zero.mp room')
    · have empty : ({ insert with params, batchRemaining := insert.batchRemaining - 1 } :
          SQLiteRowInsert).next.place = 0 := Nat.sub_self _
      rw [empty, List.range_zero, List.map_nil, List.append_nil]
      rw [full] at rows
      exact rows
  · refine ⟨_, if_neg more, rfl, ?_, ?_, fits, positive, fun zero => ?_, fun room' i p found => ?_,
      fun k inside => ?_, ?_⟩
    · simp only
      omega
    · show insert.batchRemaining - 1 ≤ insert.batchSize
      omega
    · exact Nat.eq_zero_of_not_pos fun positive' => more ⟨zero, positive'⟩
    · have lt := (List.getElem?_eq_some_iff.mp found).1
      rw [cell, place]
      exact fresh _ (Nat.le_add_right _ _)
    · rw [place] at inside
      exact fresh k (Nat.le_trans (Nat.mul_le_mul_right _ (Nat.le_succ _)) inside)
    · rw [place]
      exact rows

/-- The rows of an insert in which all objects are saved. -/
theorem Progress.finish {c : SQLiteCollection} {count : Nat}
    {done : List (Int64 × List (UInt32 × Written))} {writes : List (UInt32 × Written)}
    (progress : Progress codecs all c count insert done writes) (full : done.length = count) :
    insert.finish = done.map (rowOf codecs all c) := by
  have none_left : insert.batchRemaining = 0 := by
    have := progress.total
    omega
  have place : insert.place = insert.statementRows := by
    have := progress.positive
    unfold place statementRows
    omega
  have rows := progress.rows
  rw [place] at rows
  exact rows

/-! ## Objects -/

theorem writtenValue_of_notMem {p : SQLiteProperty} {k : Nat} {writes : List (UInt32 × Written)}
    (unwritten : ∀ index ∈ writes.map Prod.fst, index.toNat ≠ k) (start : Value) :
    writes.foldl (fun cell write =>
      if k = write.1.toNat then (write.2.bound codecs all p write.1.toUInt16).getD cell
      else cell) start = start := by
  induction writes with
  | nil => rfl
  | cons write writes ih =>
    rw [List.foldl_cons, if_neg (unwritten write.1 List.mem_cons_self).symm]
    exact ih fun index mem => unwritten index (List.mem_cons_of_mem _ mem)

/-- A property that is written once. -/
theorem writtenValue_of_mem {p : SQLiteProperty} {writes : List (UInt32 × Written)}
    (nodup : (writes.map Prod.fst).Nodup) {index : UInt32} {value : Written}
    (mem : (index, value) ∈ writes) :
    writtenValue codecs all p index.toNat writes =
      (value.bound codecs all p index.toUInt16).getD .null := by
  obtain ⟨before, after, rfl⟩ := List.append_of_mem mem
  have fresh := nodup
  rw [List.map_append, List.map_cons] at fresh
  obtain ⟨-, later, apart⟩ := List.nodup_append.mp fresh
  have unwritten (j : UInt32) (other : j ≠ index) : j.toNat ≠ index.toNat :=
    fun same => other (UInt32.toNat_inj.mp same)
  have left := @writtenValue_of_notMem codecs all p index.toNat before
    (fun j mem => unwritten j (apart j mem index List.mem_cons_self)) .null
  rw [writtenValue, List.foldl_append, left, List.foldl_cons, if_pos rfl]
  apply writtenValue_of_notMem
  intro j mem
  exact unwritten j fun same => (List.nodup_cons.mp later).1 (same ▸ mem)

theorem rowOf_spec {c : SQLiteCollection} {object : Int64 × List (UInt32 × Written)}
    (writable : Writable c object.2) (nodup : (object.2.map Prod.fst).Nodup) :
    RowOf codecs all c object (rowOf codecs all c object) := by
  have column (index : Nat) (p : SQLiteProperty) (positive : 0 < index)
      (found : c.properties[index - 1]? = some p) : (rowOf codecs all c object)[index]? =
        some (columnValue p.dataType (writtenValue codecs all p index object.2)) := by
    obtain ⟨i, rfl⟩ := Nat.exists_eq_succ_of_ne_zero (Nat.pos_iff_ne_zero.mp positive)
    rw [Nat.succ_sub_one] at found
    rw [rowOf, List.getElem?_cons_succ, List.getElem?_mapIdx, found]
    rfl
  refine ⟨rfl, fun index value mem p found => ?_, fun index nonzero unwritten inside => ?_⟩
  · obtain ⟨positive, -, at_⟩ := index_le_of_getProperty (writable _ mem).1 found
    rw [column index.toNat p positive at_, writtenValue_of_mem nodup mem]
  · have positive : 0 < index.toNat :=
      Nat.pos_iff_ne_zero.mpr fun zero => nonzero (UInt32.toNat_inj.mp zero)
    have lt : index.toNat - 1 < c.properties.length := by omega
    have elsewhere (j : UInt32) (mem : j ∈ object.2.map Prod.fst) : j.toNat ≠ index.toNat := by
      intro same
      obtain rfl := UInt32.toNat_inj.mp same
      exact unwritten mem
    rw [column index.toNat _ positive (List.getElem?_eq_getElem lt), writtenValue,
      writtenValue_of_notMem elsewhere, columnValue_null]

end SQLiteRowInsert

end IsarPlus.Sqlite
