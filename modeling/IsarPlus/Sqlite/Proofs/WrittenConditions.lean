import IsarPlus.Sqlite.Proofs.Conditions
import IsarPlus.Sqlite.Writer

/-!
# Conditions on written JSON

What the writers of JSON columns leave of the calls made to them, and that a condition on the JSON
value of a property, however deep in nested objects, means what it is to mean of the written value.
The one exception is a byte list that is written at once (`write_byte_list`): its JSON is a string,
no condition looks into it, and so none of its bytes meets one.
-/

namespace IsarPlus.Sqlite
open Scalar

/-! ## Writers of objects -/

section
variable {base64 : List UInt8 → List Char} {all : List SQLiteCollection}

/-- The JSON value that is written for a property, unless it is null; it is that of a writer with the
index `k`. -/
def Written.json (base64 : List UInt8 → List Char) (all : List SQLiteCollection)
    (p : SQLiteProperty) (k : UInt16) : Written → Option Json
  | .null => none
  | .bool value => some (.bool value)
  | .byte value => some (.number (.integer value.toNat))
  | .int value => if value ≠ nullInt then some (.number (.integer value.toInt)) else none
  | .float value => if value.isNan then none else fromF64 value.toF64
  | .long value => if value ≠ nullLong then some (.number (.integer value.toInt)) else none
  | .double value => if value.isNan then none else fromF64 value
  | .string value => some (.string value)
  | .byteList value => some (.string (base64 value))
  | .object writes => do
    let index ← p.collectionIndex
    let target ← all[index.toNat]?
    pure (.object ((SQLiteObjectWriter.new target k).writeAll base64 all writes).map)
  | .list length writes =>
    let writer : SQLiteListWriter :=
      { collectionIndex := p.collectionIndex
        propertyIndex := k
        list := List.replicate length.toNat .null }
    some (.array (writer.writeAll base64 all writes).list)

namespace SQLiteListWriter

/-- Calls change the elements only, not their number. -/
theorem write_frame (w : SQLiteListWriter) (index : UInt32) (value : Written) :
    ∃ list, w.write base64 all index value = { w with list := list } ∧
      list.length = w.list.length := by
  have set (i : Nat) (j : Json) :
      ∃ list, w.set i j = { w with list := list } ∧ list.length = w.list.length := by
    unfold SQLiteListWriter.set
    split
    · exact ⟨_, rfl, List.length_set⟩
    · exact ⟨_, rfl, rfl⟩
  cases value with
  | byteList value | list length writes =>
    unfold SQLiteListWriter.write
    exact ⟨_, rfl, rfl⟩
  | object writes =>
    simp only [SQLiteListWriter.write, endObject]
    split
    · exact set _ _
    · exact ⟨_, rfl, rfl⟩
  | _ =>
    unfold SQLiteListWriter.write
    exact set _ _

theorem writeAll_frame (w : SQLiteListWriter) (writes : List (UInt32 × Written)) :
    ∃ list, w.writeAll base64 all writes = { w with list := list } ∧
      list.length = w.list.length := by
  induction writes generalizing w with
  | nil => exact ⟨_, by rw [SQLiteListWriter.writeAll], rfl⟩
  | cons head writes ih =>
    obtain ⟨index, value⟩ := head
    obtain ⟨list, written, length⟩ := @write_frame base64 all w index value
    obtain ⟨list', rest, length'⟩ := ih (w.write base64 all index value)
    refine ⟨list', by rw [SQLiteListWriter.writeAll, rest, written], ?_⟩
    rw [length', written]
    exact length

@[simp] theorem propertyIndex_writeAll (w : SQLiteListWriter) (writes : List (UInt32 × Written)) :
    (w.writeAll base64 all writes).propertyIndex = w.propertyIndex := by
  obtain ⟨list, written, -⟩ := @writeAll_frame base64 all w writes
  rw [written]

@[simp] theorem length_writeAll (w : SQLiteListWriter) (writes : List (UInt32 × Written)) :
    (w.writeAll base64 all writes).list.length = w.list.length := by
  obtain ⟨list, written, length⟩ := @writeAll_frame base64 all w writes
  rw [written]
  exact length

/-- The element of an index that is written at most once. -/
theorem getElem?_writeAll {f : Written → Json} {w : SQLiteListWriter}
    {writes : List (UInt32 × Written)}
    (plain : ∀ (i : UInt32) v, (i, v) ∈ writes → ∀ w : SQLiteListWriter,
      w.write base64 all i v = w.set i.toNat (f v))
    (once : (writes.map fun write => write.1).Nodup) :
    (∀ (i : UInt32) v, (i, v) ∈ writes → i.toNat < w.list.length →
      (w.writeAll base64 all writes).list[i.toNat]? = some (f v)) ∧
    ∀ i : Nat, (∀ (j : UInt32) v, (j, v) ∈ writes → j.toNat ≠ i) →
      (w.writeAll base64 all writes).list[i]? = w.list[i]? := by
  induction writes generalizing w with
  | nil => simp [SQLiteListWriter.writeAll]
  | cons head writes ih =>
    obtain ⟨index, value⟩ := head
    obtain ⟨fresh, once⟩ := List.nodup_cons.mp once
    obtain ⟨written, others⟩ := @ih (w.set index.toNat (f value))
      (fun i v mem => plain i v (List.mem_cons_of_mem _ mem)) once
    have length : (w.set index.toNat (f value)).list.length = w.list.length := by
      unfold SQLiteListWriter.set
      split <;> simp
    rw [SQLiteListWriter.writeAll, plain index value List.mem_cons_self]
    refine ⟨fun i v mem bound => ?_, fun i unwritten => ?_⟩
    · rcases List.mem_cons.mp mem with head | mem
      · cases head
        rw [others index.toNat fun j v' mem same => ?_]
        · simp [SQLiteListWriter.set, bound]
        · rw [UInt32.toNat_inj] at same
          exact fresh (List.mem_map.mpr ⟨(j, v'), mem, same⟩)
      · exact written i v mem (length ▸ bound)
    · rw [others i fun j v mem => unwritten j v (List.mem_cons_of_mem _ mem)]
      have ne : index.toNat ≠ i := unwritten index value List.mem_cons_self
      unfold SQLiteListWriter.set
      split
      · exact List.getElem?_set_ne ne
      · rfl

end SQLiteListWriter

namespace SQLiteObjectWriter

variable {w : SQLiteObjectWriter}

/-- Calls change the map only. -/
theorem write_frame (w : SQLiteObjectWriter) (index : UInt32) (value : Written) :
    ∃ map, w.write base64 all index value = { w with map := map } := by
  have insert (j : Json) : ∃ map, w.insert index j = { w with map := map } := by
    unfold SQLiteObjectWriter.insert
    split <;> exact ⟨_, rfl⟩
  cases value with
  | null =>
    unfold SQLiteObjectWriter.write writeNull
    split <;> exact ⟨_, rfl⟩
  | bool value | byte value | string value | byteList value =>
    unfold SQLiteObjectWriter.write
    exact insert _
  | int value | long value =>
    simp only [SQLiteObjectWriter.write, writeInt, writeLong]
    split
    · exact insert _
    · exact ⟨_, rfl⟩
  | float value | double value =>
    simp only [SQLiteObjectWriter.write, writeFloat, writeDouble]
    split
    · exact ⟨_, rfl⟩
    · split
      · exact insert _
      · exact ⟨_, rfl⟩
  | object writes =>
    simp only [SQLiteObjectWriter.write, endObject]
    split
    · split <;> exact ⟨_, rfl⟩
    · exact ⟨_, rfl⟩
  | list length writes =>
    simp only [SQLiteObjectWriter.write, endList]
    split
    · split <;> exact ⟨_, rfl⟩
    · exact ⟨_, rfl⟩

theorem writeAll_frame (w : SQLiteObjectWriter) (writes : List (UInt32 × Written)) :
    ∃ map, w.writeAll base64 all writes = { w with map := map } := by
  induction writes generalizing w with
  | nil => exact ⟨_, by rw [SQLiteObjectWriter.writeAll]⟩
  | cons head writes ih =>
    obtain ⟨index, value⟩ := head
    obtain ⟨map, written⟩ := w.write_frame index value
    obtain ⟨map', rest⟩ := ih (w.write base64 all index value)
    exact ⟨map', by rw [SQLiteObjectWriter.writeAll, rest, written]⟩

@[simp] theorem collection_write (w : SQLiteObjectWriter) (index : UInt32) (value : Written) :
    (w.write base64 all index value).collection = w.collection := by
  obtain ⟨map, written⟩ := @write_frame base64 all w index value
  rw [written]

@[simp] theorem propertyIndex_writeAll (w : SQLiteObjectWriter)
    (writes : List (UInt32 × Written)) :
    (w.writeAll base64 all writes).propertyIndex = w.propertyIndex := by
  obtain ⟨map, written⟩ := @writeAll_frame base64 all w writes
  rw [written]

@[simp] theorem propertyIndex_new (c : SQLiteCollection) (k : UInt16) :
    (new c k).propertyIndex = k := rfl

/-- A call for an index without a property does nothing. -/
theorem write_of_missing {index : UInt32}
    (missing : w.collection.getProperty index.toUInt16 = none) (value : Written) :
    w.write base64 all index value = w := by
  have insert (j : Json) : w.insert index j = w := by
    simp [SQLiteObjectWriter.insert, missing]
  cases value with
  | null => simp [SQLiteObjectWriter.write, writeNull, missing]
  | bool value | byte value | string value | byteList value =>
    unfold SQLiteObjectWriter.write
    exact insert _
  | int value | long value =>
    simp only [SQLiteObjectWriter.write, writeInt, writeLong, insert, ite_self]
  | float value =>
    simp only [SQLiteObjectWriter.write, writeFloat, insert]
    cases fromF64 value.toF64 <;> simp
  | double value =>
    simp only [SQLiteObjectWriter.write, writeDouble, insert]
    cases fromF64 value <;> simp
  | object writes => simp [SQLiteObjectWriter.write, beginObject, missing]
  | list length writes => simp [SQLiteObjectWriter.write, beginList, missing]

/-- What a call leaves in the map. -/
theorem write_of_property {index : UInt32} {q : SQLiteProperty}
    (property : w.collection.getProperty index.toUInt16 = some q) (value : Written) :
    (w.write base64 all index value).map =
      match value.json base64 all q index.toUInt16 with
      | some j => insertKey q.name j w.map
      | none =>
        match value with
        | .null => removeKey q.name w.map
        | _ => w.map := by
  have insert (j : Json) : (w.insert index j).map = insertKey q.name j w.map := by
    simp [SQLiteObjectWriter.insert, property]
  cases value with
  | null => simp [SQLiteObjectWriter.write, writeNull, property, Written.json]
  | bool value | byte value | string value | byteList value =>
    unfold SQLiteObjectWriter.write
    exact insert _
  | int value =>
    simp only [SQLiteObjectWriter.write, writeInt, Written.json]
    by_cases null : value = nullInt <;> simp [null, insert]
  | long value =>
    simp only [SQLiteObjectWriter.write, writeLong, Written.json]
    by_cases null : value = nullLong <;> simp [null, insert]
  | float value =>
    simp only [SQLiteObjectWriter.write, writeFloat, Written.json]
    by_cases nan : value.isNan = true
    · simp [nan]
    · cases number : fromF64 value.toF64 <;> simp [nan, insert]
  | double value =>
    simp only [SQLiteObjectWriter.write, writeDouble, Written.json]
    by_cases nan : value.isNan = true
    · simp [nan]
    · cases number : fromF64 value <;> simp [nan, insert]
  | object writes =>
    simp only [SQLiteObjectWriter.write, beginObject, Written.json, property, Option.bind_eq_bind,
      Option.bind_some]
    cases target : q.collectionIndex.bind fun index => all[index.toNat]? with
    | none =>
      cases index' : q.collectionIndex with
      | none => simp
      | some i => simp_all
    | some c =>
      obtain ⟨i, index', found⟩ := Option.bind_eq_some_iff.mp target
      simp [index', found, endObject, property]
  | list length writes =>
    simp [SQLiteObjectWriter.write, beginList, endList, Written.json, property]

/-- Properties of one collection that share a name are one property. -/
theorem index_of_name {c : SQLiteCollection} (names : (c.properties.map fun q => q.name).Nodup)
    {i j : UInt16} {q q' : SQLiteProperty} (property : c.getProperty i = some q)
    (property' : c.getProperty j = some q') (same : q.name = q'.name) : i = j := by
  unfold SQLiteCollection.getProperty at property property'
  obtain ⟨nonzero, at'⟩ := Option.ite_none_right_eq_some.mp property
  obtain ⟨nonzero', at''⟩ := Option.ite_none_right_eq_some.mp property'
  have get : (c.properties.map fun q => q.name)[i.toNat - 1]? =
      (c.properties.map fun q => q.name)[j.toNat - 1]? := by
    rw [List.getElem?_map, List.getElem?_map, at', at'']
    simp [same]
  have bound : i.toNat - 1 < (c.properties.map fun q => q.name).length := by
    rw [List.length_map]
    exact (List.getElem?_eq_some_iff.mp at').1
  have equal := (List.getElem?_inj bound names).mp get
  have positive : i.toNat ≠ 0 := fun zero => nonzero (UInt16.toNat_inj.mp zero)
  have positive' : j.toNat ≠ 0 := fun zero => nonzero' (UInt16.toNat_inj.mp zero)
  apply UInt16.toNat_inj.mp
  omega

section
variable {i : UInt16} {q : SQLiteProperty}

theorem lookup_write_of_ne (names : (w.collection.properties.map fun q => q.name).Nodup)
    (property : w.collection.getProperty i = some q) {index : UInt32} (ne : index.toUInt16 ≠ i)
    (value : Written) :
    (w.write base64 all index value).map.lookup q.name = w.map.lookup q.name := by
  cases other : w.collection.getProperty index.toUInt16 with
  | none => rw [write_of_missing other]
  | some q' =>
    have name : q.name ≠ q'.name := fun same => ne (index_of_name names property other same).symm
    rw [write_of_property other]
    split
    · simp [name]
    · split
      · simp [name]
      · rfl

theorem lookup_write (property : w.collection.getProperty i = some q)
    (empty : w.map.lookup q.name = none) {index : UInt32} (same : index.toUInt16 = i)
    (value : Written) :
    (w.write base64 all index value).map.lookup q.name = value.json base64 all q i := by
  subst same
  rw [write_of_property property]
  cases json : value.json base64 all q index.toUInt16 with
  | some j => simp
  | none =>
    show (match value with
      | .null => removeKey q.name w.map
      | _ => w.map).lookup q.name = none
    split
    · simp
    · exact empty

theorem lookup_writeAll_of_unwritten
    (names : (w.collection.properties.map fun q => q.name).Nodup)
    (property : w.collection.getProperty i = some q) {writes : List (UInt32 × Written)}
    (unwritten : ∀ (j : UInt32) v, (j, v) ∈ writes → j.toUInt16 ≠ i) :
    (w.writeAll base64 all writes).map.lookup q.name = w.map.lookup q.name := by
  induction writes generalizing w with
  | nil => rw [SQLiteObjectWriter.writeAll]
  | cons head writes ih =>
    obtain ⟨index, value⟩ := head
    rw [SQLiteObjectWriter.writeAll, ih]
    · exact lookup_write_of_ne names property (unwritten index value List.mem_cons_self) value
    · simpa using names
    · simpa using property
    · exact fun j v mem => unwritten j v (List.mem_cons_of_mem _ mem)

/-- The value of a property that is written once. -/
theorem lookup_writeAll (names : (w.collection.properties.map fun q => q.name).Nodup)
    (property : w.collection.getProperty i = some q) (empty : w.map.lookup q.name = none)
    {writes : List (UInt32 × Written)} (once : (writes.map fun write => write.1.toUInt16).Nodup)
    {j : UInt32} {v : Written} (mem : (j, v) ∈ writes) (same : j.toUInt16 = i) :
    (w.writeAll base64 all writes).map.lookup q.name = v.json base64 all q i := by
  induction writes generalizing w with
  | nil => cases mem
  | cons head writes ih =>
    obtain ⟨index, value⟩ := head
    obtain ⟨fresh, once⟩ := List.nodup_cons.mp once
    have names' : ((w.write base64 all index value).collection.properties.map
        fun q => q.name).Nodup := by simpa using names
    have property' : (w.write base64 all index value).collection.getProperty i = some q := by
      simpa using property
    rw [SQLiteObjectWriter.writeAll]
    rcases List.mem_cons.mp mem with head | mem
    · cases head
      rw [lookup_writeAll_of_unwritten names' property' fun j' v' mem' same' => ?_]
      · exact lookup_write property empty same v
      · exact fresh (List.mem_map.mpr ⟨(j', v'), mem', same'.trans same.symm⟩)
    · have ne : index.toUInt16 ≠ i := fun eq =>
        fresh (List.mem_map.mpr ⟨(j, v), mem, same.trans eq.symm⟩)
      apply ih names' property' _ once mem
      rw [lookup_write_of_ne names property ne]
      exact empty

end

end SQLiteObjectWriter

/-! ## Written values -/

/-- The value of a type that is left out. -/
def absent (t : DataType) : Datum :=
  if t.isList then .list none else if t = .object then .object none else .null

/-- The scalar that a call of its type stands for: the least integers and NaN are null; a number
that is not finite has no JSON. -/
def Written.datum : DataType → Written → Option Datum
  | .bool, .bool value => some (.bool value)
  | .byte, .byte value => some (.integer (Int64.ofNat value.toNat))
  | .int, .int value => some (if value = nullInt then .null else .integer value.toInt64)
  | .float, .float value =>
    if value.isNan then some .null
    else if isFinite value.toF64 then some (.real value.toF64) else none
  | .long, .long value => some (if value = nullLong then .null else .integer value)
  | .double, .double value =>
    if value.isNan then some .null else if isFinite value then some (.real value) else none
  | .string, .string value => some (.string value)
  | .json, .string value => some (.string value)
  | _, _ => none

/-- The value of a property that the calls for it stand for. Each property of an object and each
element of a list is written at most once; what is not written is null. -/
inductive Stores (all : List SQLiteCollection) : SQLiteProperty → Written → Datum → Prop
  | null {p : SQLiteProperty} : Stores all p .null (absent p.dataType)
  | scalar {p : SQLiteProperty} {w : Written} {d : Datum} :
      w.datum p.dataType = some d → Stores all p w d
  | byteList {p : SQLiteProperty} {bytes : List UInt8} : p.dataType = .byteList →
      Stores all p (.byteList bytes)
        (.list (some (bytes.map fun byte => .integer (Int64.ofNat byte.toNat))))
  | list {p : SQLiteProperty} {t : DataType} {length : UInt32} {writes : List (UInt32 × Written)}
      {elements : List Datum} :
      p.dataType.elementType = some t → elements.length = length.toNat →
      (writes.map fun write => write.1).Nodup → (∀ i w, (i, w) ∈ writes → i < length) →
      (∀ i w d, (i, w) ∈ writes → elements[i.toNat]? = some d →
        Stores all { p with dataType := t } w d) →
      (∀ (i : Nat) d, elements[i]? = some d → (∀ j w, (j, w) ∈ writes → j.toNat ≠ i) →
        d = absent t) →
      Stores all p (.list length writes) (.list (some elements))
  | object {p : SQLiteProperty} {index : UInt16} {c : SQLiteCollection}
      {writes : List (UInt32 × Written)} {fields : List Datum} :
      p.dataType = .object → p.collectionIndex = some index → all[index.toNat]? = some c →
      (c.properties.map fun q => q.name).Nodup → fields.length = c.properties.length →
      (writes.map fun write => write.1.toUInt16).Nodup →
      (∀ i w q, (i, w) ∈ writes → c.getProperty i.toUInt16 = some q →
        Stores all q w (propertyValue .null fields i.toUInt16)) →
      (∀ i q, c.getProperty i = some q → (∀ j w, (j, w) ∈ writes → j.toUInt16 ≠ i) →
        propertyValue .null fields i = absent q.dataType) →
      Stores all p (.object writes) (.object (some fields))

/-- The JSON value of a scalar. -/
theorem jsonHolds_scalar {p : SQLiteProperty} {w : Written} {d : Datum} (k : UInt16)
    (stands : w.datum p.dataType = some d) :
    JsonHolds all p d ((w.json base64 all p k).getD .null) := by
  have null (scalar : p.dataType = .int ∨ p.dataType = .long ∨ p.dataType = .float ∨
      p.dataType = .double) : JsonHolds all p .null .null := by
    apply JsonHolds.null
    · rcases scalar with type | type | type | type <;> rw [type] <;> rfl
    · rcases scalar with type | type | type | type <;> simp [type]
  have real {x : F64} (type : p.dataType = .float ∨ p.dataType = .double)
      (finite : isFinite x = true) : JsonHolds all p (.real x) ((fromF64 x).getD .null) := by
    rw [fromF64, if_pos finite]
    apply JsonHolds.real type
    simp only [F64.isNan, decide_eq_false_iff_not, not_lt]
    exact le_of_lt (of_decide_eq_true finite)
  generalize type : p.dataType = t at stands
  unfold Written.datum at stands
  split at stands
  · cases stands
    exact .bool type
  · cases stands
    rename_i value
    have small : value.toNat < 2 ^ 63 := lt_trans value.toNat_lt (by decide)
    have same : (Int64.ofNat value.toNat).toInt = value.toNat := Int64.toInt_ofNat_of_lt small
    rw [Written.json, Option.getD_some, ← same]
    exact .integer (Or.inl type)
  · rename_i value
    by_cases least : value = nullInt
    · rw [if_pos least] at stands
      cases stands
      simpa [Written.json, least] using null (Or.inl type)
    · rw [if_neg least] at stands
      cases stands
      rw [Written.json, if_pos least, Option.getD_some, ← value.toInt_toInt64]
      exact .integer (Or.inr (Or.inl type))
  · rename_i value
    by_cases nan : value.isNan = true
    · rw [if_pos nan] at stands
      cases stands
      simpa [Written.json, nan] using null (Or.inr (Or.inr (Or.inl type)))
    · rw [if_neg nan] at stands
      obtain ⟨finite, stands⟩ := Option.ite_none_right_eq_some.mp stands
      cases stands
      rw [Written.json, if_neg nan]
      exact real (Or.inl type) finite
  · rename_i value
    by_cases least : value = nullLong
    · rw [if_pos least] at stands
      cases stands
      simpa [Written.json, least] using null (Or.inr (Or.inl type))
    · rw [if_neg least] at stands
      cases stands
      rw [Written.json, if_pos least, Option.getD_some]
      exact .integer (Or.inr (Or.inr type))
  · rename_i value
    by_cases nan : value.isNan = true
    · rw [if_pos nan] at stands
      cases stands
      simpa [Written.json, nan] using null (Or.inr (Or.inr (Or.inr type)))
    · rw [if_neg nan] at stands
      obtain ⟨finite, stands⟩ := Option.ite_none_right_eq_some.mp stands
      cases stands
      rw [Written.json, if_neg nan]
      exact real (Or.inr type) finite
  · cases stands
    exact .string (Or.inl type)
  · cases stands
    exact .string (Or.inr type)
  · cases stands

/-- A scalar is written to its element as it is to a property. -/
theorem write_element {p : SQLiteProperty} {v : Written} {d : Datum} (stored : Stores all p v d)
    (scalar : IsScalar p.dataType) (k : UInt16) (w : SQLiteListWriter) (index : UInt32) :
    w.write base64 all index v = w.set index.toNat ((v.json base64 all p k).getD .null) := by
  cases stored with
  | null => rfl
  | scalar stands =>
    unfold Written.datum at stands
    split at stands
    · rfl
    · rfl
    · rename_i value _
      by_cases least : value = nullInt <;>
        simp [SQLiteListWriter.write, SQLiteListWriter.writeInt, Written.json, least]
    · rename_i value _
      by_cases nan : value.isNan = true <;>
        simp [SQLiteListWriter.write, SQLiteListWriter.writeFloat, Written.json, nan]
    · rename_i value _
      by_cases least : value = nullLong <;>
        simp [SQLiteListWriter.write, SQLiteListWriter.writeLong, Written.json, least]
    · rename_i value _
      by_cases nan : value.isNan = true <;>
        simp [SQLiteListWriter.write, SQLiteListWriter.writeDouble, Written.json, nan]
    · rfl
    · rfl
    · cases stands
  | byteList type | object type => simp [IsScalar, type] at scalar
  | list type => cases h : p.dataType <;> simp_all [IsScalar, DataType.elementType]

theorem absent_of_scalar {t : DataType} (scalar : IsScalar t) :
    absent t = .null ∧ t.isList = false ∧ t ≠ .object := by
  cases t <;> simp_all [IsScalar, absent, DataType.isList, DataType.elementType]

/-- The JSON value of a scalar, as a property or as an element. -/
theorem Stores.scalar_holds {p : SQLiteProperty} {v : Written} {d : Datum}
    (stored : Stores all p v d) (scalar : IsScalar p.dataType) (k : UInt16) :
    JsonHolds all p d ((v.json base64 all p k).getD .null) := by
  cases stored with
  | null =>
    obtain ⟨none, notList, notObject⟩ := absent_of_scalar scalar
    rw [none]
    exact .null notList notObject
  | scalar stands => exact jsonHolds_scalar k stands
  | byteList type | object type => simp [IsScalar, type] at scalar
  | list type => cases h : p.dataType <;> simp_all [IsScalar, DataType.elementType]

/-- The JSON value of a property that can be compared. -/
theorem Stores.jsonHolds {p : SQLiteProperty} {v : Written} {d : Datum}
    (stored : Stores all p v d) (scalar : IsScalar (p.dataType.elementType.getD p.dataType))
    (k : UInt16) : JsonHolds all p d ((v.json base64 all p k).getD .null) := by
  cases element : p.dataType.elementType with
  | none =>
    rw [element, Option.getD_none] at scalar
    exact stored.scalar_holds scalar k
  | some t =>
    rw [element, Option.getD_some] at scalar
    have isList : p.dataType.isList = true := by simp [DataType.isList, element]
    cases stored with
    | null =>
      rw [absent, if_pos isList]
      exact .nullList isList
    | scalar stands => exact jsonHolds_scalar k stands
    | byteList bytes => exact .byteList bytes
    | object type => simp [type, DataType.elementType] at element
    | @list _ t' length writes elements element' size once bounds written unwritten =>
      obtain rfl : t' = t := Option.some.inj (element'.symm.trans element)
      rw [Written.json, Option.getD_some]
      -- The elements are scalars, so each call sets its element.
      have plain (i : UInt32) (v : Written) (mem : (i, v) ∈ writes) (w : SQLiteListWriter) :
          w.write base64 all i v =
            w.set i.toNat ((v.json base64 all { p with dataType := t' } k).getD .null) := by
        have bound : i.toNat < elements.length := size ▸ UInt32.lt_iff_toNat_lt.mp (bounds i v mem)
        exact write_element (written i v _ mem (List.getElem?_eq_getElem bound)) scalar k w i
      obtain ⟨set, unset⟩ := @SQLiteListWriter.getElem?_writeAll base64 all _
        ⟨p.collectionIndex, k, List.replicate length.toNat .null⟩ writes plain once
      refine .list element (by simp [size]) fun i d j datum json => ?_
      by_cases some : ∃ (i' : UInt32) (v : Written), (i', v) ∈ writes ∧ i'.toNat = i
      · obtain ⟨i', v, mem, rfl⟩ := some
        have bound : i'.toNat < length.toNat := UInt32.lt_iff_toNat_lt.mp (bounds i' v mem)
        rw [set i' v mem (by simpa using bound)] at json
        cases json
        exact (written i' v d mem datum).scalar_holds scalar k
      · have none (j : UInt32) (v : Written) (mem : (j, v) ∈ writes) : j.toNat ≠ i :=
          fun same => some ⟨j, v, mem, same⟩
        obtain ⟨null, notList, notObject⟩ := absent_of_scalar scalar
        rw [unset i none, List.getElem?_replicate] at json
        obtain ⟨-, json⟩ := Option.ite_none_right_eq_some.mp json
        cases json
        rw [unwritten i d datum none, null]
        exact .null notList notObject

/-! ## Nested conditions -/

/-- The property that a chain of nested conditions leads to from a property, and the names on the
way. -/
inductive Reaches (all : List SQLiteCollection) :
    SQLiteProperty → List UInt16 → List String → SQLiteProperty → Prop
  | here {p : SQLiteProperty} : Reaches all p [] [] p
  | inner {p q r : SQLiteProperty} {index i : UInt16} {c : SQLiteCollection} {chain : List UInt16}
      {path : List String} : p.dataType = .object → p.collectionIndex = some index →
      all[index.toNat]? = some c → c.getProperty i = some q → Reaches all q chain path r →
      Reaches all p (i :: chain) (q.name :: path) r

/-- The value that the chain leads to, unless an object on the way is null. -/
def reach (d : Datum) : List UInt16 → Option Datum
  | [] => some d
  | i :: chain =>
    match d with
    | .object (some fields) => reach (propertyValue .null fields i) chain
    | _ => none

/-- What is written where the chain leads to. -/
inductive WrittenAt : Written → List UInt16 → Written → Prop
  | here {w : Written} : WrittenAt w [] w
  | inner {writes : List (UInt32 × Written)} {j : UInt32} {i : UInt16} {v u : Written}
      {chain : List UInt16} : (j, v) ∈ writes → j.toUInt16 = i → WrittenAt v chain u →
      WrittenAt (.object writes) (i :: chain) u

/-- The chain leads to a byte list that is written at once, and one of its bytes meets the
condition. -/
def ByteMeets (toLowercase : List Char → List Char) (condition : FilterCondition) (w : Written)
    (chain : List UInt16) : Prop :=
  condition.conditionType ≠ .isNull ∧ ∃ bytes, WrittenAt w chain (.byteList bytes) ∧
    ∃ byte ∈ bytes, (Datum.integer (Int64.ofNat byte.toNat)).satisfies
      (folding toLowercase condition.caseSensitive) condition.conditionType condition.values = true

/-- A condition that compares a property, or the elements of one, with null or values of its type. -/
structure Compares (q : SQLiteProperty) (condition : FilterCondition) : Prop where
  comparison : condition.conditionType = .isNull ∨ condition.conditionType.isComparison = true
  scalar : IsScalar (q.dataType.elementType.getD q.dataType)
  typed : ∀ v ∈ condition.values, Typed (q.dataType.elementType.getD q.dataType) v

/-- The JSON condition of a condition at the end of a path (`sql.rs:163-192`). -/
def jsonConditionAt (toLowercase : List Char → List Char) (q : SQLiteProperty) (path : List String)
    (condition : FilterCondition) : JsonCondition :=
  .new toLowercase path condition.conditionType q.dataType.isList condition.values
    condition.caseSensitive

section
variable {toLowercase : List Char → List Char} {p q : SQLiteProperty} {condition : FilterCondition}
  {w : Written} {d : Datum}

theorem matchesValue_string {c : JsonCondition} (isList : c.isList = true)
    (notNull : c.conditionType ≠ .isNull) (s : List Char) :
    (c.matchesValue toLowercase (.string s)).getD false = false := by
  cases test : c.test toLowercase <;> simp [JsonCondition.matchesValue, isList, notNull, test]

/-- A condition on the property itself. -/
theorem json_condition_here (stored : Stores all q w d) (compares : Compares q condition)
    (k : UInt16) :
    (((jsonConditionAt toLowercase q [] condition).matchesValue toLowercase
        ((w.json base64 all q k).getD .null)).getD false = d.meets toLowercase condition) ↔
      ¬ ByteMeets toLowercase condition w [] := by
  have holds := @Stores.jsonHolds base64 all q w d stored compares.scalar k
  by_cases bytes : ∃ bytes, w = .byteList bytes
  · obtain ⟨bytes, rfl⟩ := bytes
    cases stored with
    | scalar stands => cases h : q.dataType <;> simp [h, Written.datum] at stands
    | byteList type =>
      have isList : q.dataType.isList = true := by rw [type]; rfl
      by_cases null : condition.conditionType = .isNull
      · simp [ByteMeets, null, jsonConditionAt, JsonCondition.matchesValue, JsonCondition.test,
          JsonCondition.new, Written.json, Json.isNull, Datum.meets]
      · have unmet : ((jsonConditionAt toLowercase q [] condition).matchesValue toLowercase
            (((Written.byteList bytes).json base64 all q k).getD .null)).getD false = false := by
          apply matchesValue_string
          · exact isList
          · exact null
        have meets : (Datum.list (some (bytes.map fun byte =>
            Datum.integer (Int64.ofNat byte.toNat)))).meets toLowercase condition =
            bytes.any fun byte => (Datum.integer (Int64.ofNat byte.toNat)).satisfies
              (folding toLowercase condition.caseSensitive) condition.conditionType
              condition.values := by
          simp only [Datum.meets, if_neg null, Option.any_some, List.any_map]
          rfl
        have written (bytes' : List UInt8) :
            WrittenAt (.byteList bytes) [] (.byteList bytes') ↔ bytes' = bytes := by
          refine ⟨fun h => ?_, fun h => h ▸ .here⟩
          cases h
          rfl
        rw [unmet, meets, eq_comm, List.any_eq_false]
        simp [ByteMeets, null, written]
  · have exact' : condition.conditionType = .isNull ∨ Comparable q.dataType condition ∧
        (q.dataType = .byteList → ∀ s, (w.json base64 all q k).getD .null ≠ .string s) := by
      refine compares.comparison.imp_right fun comparison =>
        ⟨⟨comparison, compares.scalar, compares.typed⟩, fun type s => ?_⟩
      cases stored with
      | null => simp [Written.json]
      | scalar stands => simp [type, Written.datum] at stands
      | byteList => exact absurd ⟨_, rfl⟩ bytes
      | list => simp [Written.json]
      | object type' => simp [type] at type'
    have none : ¬ ByteMeets toLowercase condition w [] := by
      rintro ⟨-, bytes', written, -⟩
      cases written
      exact bytes ⟨bytes', rfl⟩
    simp only [none, not_false_iff, iff_true]
    exact holds.matchesValue_of_notString exact' toLowercase []

theorem writtenAt_object {writes : List (UInt32 × Written)}
    (once : (writes.map fun write => write.1.toUInt16).Nodup) {j : UInt32} {i : UInt16}
    {v : Written} (mem : (j, v) ∈ writes) (same : j.toUInt16 = i) {chain : List UInt16}
    {u : Written} : WrittenAt (.object writes) (i :: chain) u ↔ WrittenAt v chain u := by
  refine ⟨fun h => ?_, .inner mem same⟩
  cases h with
  | inner mem' same' written =>
    have eq := List.inj_on_of_nodup_map once mem' mem (same'.trans same.symm)
    cases eq
    exact written

theorem byteMeets_object {writes : List (UInt32 × Written)}
    (once : (writes.map fun write => write.1.toUInt16).Nodup) {j : UInt32} {i : UInt16}
    {v : Written} (mem : (j, v) ∈ writes) (same : j.toUInt16 = i) {chain : List UInt16} :
    ByteMeets toLowercase condition (.object writes) (i :: chain) ↔
      ByteMeets toLowercase condition v chain := by
  simp only [ByteMeets, writtenAt_object once mem same]

/-- Nothing is written where nothing is. -/
theorem not_writtenAt_null {chain : List UInt16} {bytes : List UInt8} :
    ¬ WrittenAt .null chain (.byteList bytes) := by
  intro written
  cases written

/-- The translation of a condition on a list property of a stored object, or on a scalar or list
property of an object nested in one, matches the JSON that is written for the object just when the
condition holds of the written value, unless a byte list is written at once and one of its bytes
meets the condition. -/
theorem json_condition_exact {chain : List UInt16} {path : List String}
    (reaches : Reaches all p chain path q) (stored : Stores all p w d)
    (compares : Compares q condition) (k : UInt16) :
    ((jsonConditionAt toLowercase q path condition).matchesJson toLowercase
        ((w.json base64 all p k).getD .null) =
      (reach d chain).any fun d => d.meets toLowercase condition) ↔
      ¬ ByteMeets toLowercase condition w chain := by
  induction reaches generalizing w d k with
  | here => exact json_condition_here stored compares k
  | @inner p q r index i c chain path type target found property reaches ih =>
    cases stored with
    | null =>
      have absent : absent p.dataType = .object none := by rw [type]; rfl
      simp [ByteMeets, not_writtenAt_null, absent, reach, Written.json, JsonCondition.matchesJson,
        jsonConditionAt, JsonCondition.new, extractValue]
    | scalar stands => cases w <;> simp [type, Written.datum] at stands
    | byteList type' => simp [type] at type'
    | list element => simp [type, DataType.elementType] at element
    | @object _ index' c' writes fields _ target' found' names length once written unwritten =>
      obtain rfl : index' = index := Option.some.inj (target'.symm.trans target)
      obtain rfl : c' = c := Option.some.inj (found'.symm.trans found)
      have reached : reach (.object (some fields)) (i :: chain) =
          reach (propertyValue .null fields i) chain := rfl
      have matched : (jsonConditionAt toLowercase r (q.name :: path) condition).matchesJson
            toLowercase (((Written.object writes).json base64 all p k).getD .null) =
          (jsonConditionAt toLowercase r path condition).matchesJson toLowercase
            ((((SQLiteObjectWriter.new c' k).writeAll base64 all writes).map.lookup
              q.name).getD .null) := by
        simp only [Written.json, target, found, Option.bind_eq_bind, Option.bind_some,
          Option.pure_def, Option.getD_some]
        rfl
      rw [reached, matched]
      by_cases there : ∃ (j : UInt32) (v : Written), (j, v) ∈ writes ∧ j.toUInt16 = i
      · obtain ⟨j, v, mem, same⟩ := there
        rw [@SQLiteObjectWriter.lookup_writeAll base64 all (.new c' k) i q names property rfl writes
          once j v mem same, byteMeets_object once mem same]
        have stored := written j v q mem (same ▸ property)
        rw [same] at stored
        exact ih stored compares i
      · have none (j : UInt32) (v : Written) (mem : (j, v) ∈ writes) : j.toUInt16 ≠ i :=
          fun same => there ⟨j, v, mem, same⟩
        have nowhere : ¬ ByteMeets toLowercase condition (.object writes) (i :: chain) := by
          rintro ⟨-, bytes, h, -⟩
          cases h with
          | inner mem same => exact none _ _ mem same
        have nowhere' : ¬ ByteMeets toLowercase condition .null chain := by
          rintro ⟨-, bytes, h, -⟩
          exact not_writtenAt_null h
        rw [@SQLiteObjectWriter.lookup_writeAll_of_unwritten base64 all (.new c' k) i q names
          property writes none, unwritten i q property none]
        simp only [nowhere, not_false_iff, iff_true]
        exact (ih .null compares i).mpr nowhere'

end

end

/-! ### An address -/

/-- An embedded collection. -/
def address : SQLiteCollection :=
  ⟨"Address", none, [⟨"city", .string, none⟩, ⟨"geo", .byteList, none⟩]⟩

/-- A property that holds an address. -/
def home : SQLiteProperty := ⟨"home", .object, some 0⟩

theorem address_reaches_city : Reaches [address] home [1] ["city"] ⟨"city", .string, none⟩ :=
  @Reaches.inner [address] home ⟨"city", .string, none⟩ _ 0 1 address [] [] rfl rfl rfl rfl .here

/-- An address of which one property is written. -/
theorem stores_address {writes : List (UInt32 × Written)} {city geo : Datum}
    (once : (writes.map fun write => write.1.toUInt16).Nodup)
    (written : ∀ i w q, (i, w) ∈ writes → address.getProperty i.toUInt16 = some q →
      Stores [address] q w (propertyValue .null [city, geo] i.toUInt16))
    (cityLeft : (∀ j w, (j, w) ∈ writes → j.toUInt16 ≠ 1) → city = .null)
    (geoLeft : (∀ j w, (j, w) ∈ writes → j.toUInt16 ≠ 2) → geo = .list none) :
    Stores [address] home (.object writes) (.object (some [city, geo])) := by
  refine .object rfl rfl rfl (by decide) rfl once written fun i q property unwritten => ?_
  obtain ⟨nonzero, at'⟩ := Option.ite_none_right_eq_some.mp property
  obtain ⟨bound, rfl⟩ := List.getElem?_eq_some_iff.mp at'
  have cases : i = 1 ∨ i = 2 := by
    have positive : i.toNat ≠ 0 := fun zero => nonzero (UInt16.toNat_inj.mp zero)
    have small : i.toNat - 1 < 2 := bound
    have : i.toNat = 1 ∨ i.toNat = 2 := by omega
    exact this.imp (fun h => UInt16.toNat_inj.mp h) fun h => UInt16.toNat_inj.mp h
  rcases cases with rfl | rfl
  · exact cityLeft unwritten
  · exact geoLeft unwritten

/-- The lowercased city is compared, through the object. -/
theorem json_condition_exact_on_city :
    ((jsonConditionAt (List.map Char.toLower) ⟨"city", .string, none⟩ ["city"]
          ⟨1, .equal, [some (.string ['u'])], false⟩).matchesJson (List.map Char.toLower)
        (((Written.object [(1, .string ['U'])]).json (fun _ => []) [address] home 0).getD .null) =
      (reach (.object (some [.string ['U'], .list none])) [1]).any fun d =>
        d.meets (List.map Char.toLower) ⟨1, .equal, [some (.string ['u'])], false⟩) ↔
      ¬ ByteMeets (List.map Char.toLower) ⟨1, .equal, [some (.string ['u'])], false⟩
        (.object [(1, .string ['U'])]) [1] := by
  apply json_condition_exact address_reaches_city
  · apply stores_address
    · decide
    · intro i w q mem property
      cases List.mem_singleton.mp mem
      cases property
      exact .scalar rfl
    · intro none
      exact absurd rfl (none 1 _ List.mem_cons_self)
    · exact fun _ => rfl
  · exact ⟨Or.inr rfl, trivial, by simp [Typed, DataType.elementType]⟩

/-- A byte list that is written at once has the byte that the condition asks for, and the condition
on its JSON fails. -/
theorem bytes_at_once_not_matched :
    Stores [address] home (.object [(2, .byteList [7])])
      (.object (some [.null, .list (some [.integer 7])])) ∧
    ((reach (.object (some [.null, .list (some [.integer 7])])) [2]).any fun d =>
      d.meets id ⟨2, .equal, [some (.integer 7)], true⟩) = true ∧
    (jsonConditionAt id ⟨"geo", .byteList, none⟩ ["geo"]
        ⟨2, .equal, [some (.integer 7)], true⟩).matchesJson id
      (((Written.object [(2, .byteList [7])]).json (fun _ => ['B', 'w']) [address] home 0).getD
        .null) = false := by
  refine ⟨?_, by decide, by decide⟩
  apply stores_address
  · decide
  · intro i w q mem property
    cases List.mem_singleton.mp mem
    cases property
    exact .byteList rfl
  · exact fun _ => rfl
  · intro none
    exact absurd rfl (none 2 _ List.mem_cons_self)

end IsarPlus.Sqlite
