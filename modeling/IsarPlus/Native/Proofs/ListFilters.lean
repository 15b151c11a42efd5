import IsarPlus.Dart.QueryBuilder
import IsarPlus.Native.Insert
import IsarPlus.Native.Proofs.RealFilters
import IsarPlus.Native.Proofs.StringFilters
import IsarPlus.Native.Proofs.Writing

/-!
# Filters on the emptiness of lists

That a list has elements is asked for by a comparison that every element is to satisfy: null is the
lower bound, and the upper bound is what the compiler takes for the greatest value of the type.
-/

namespace IsarPlus.Native
open ByteBuffer Scalar
open Sqlite (Written)

variable {toLowercase : List Char → List Char}

/-! ## Loops -/

/-- A loop over a list in which no test fails. -/
theorem anyM_eq_some {α : Type} {l : List α} {test : α → Option Bool} {f : α → Bool}
    (h : ∀ a ∈ l, test a = some (f a)) : l.anyM test = some (l.any f) := by
  induction l with
  | nil => rfl
  | cons a l ih =>
    rw [List.anyM, h a List.mem_cons_self, List.any_cons]
    cases f a with
    | true => rfl
    | false => exact ih fun b mem => h b (List.mem_cons_of_mem _ mem)

/-! ## The condition on elements -/

/-- What `isNotEmpty` asks of an element. -/
def openTest (toLowercase : List Char → List Char) : DataType → ValueTest
  | .bool => .bool none (some true)
  | .byte => .byte 0 255
  | .int => .int Int32.minValue 2147483647
  | .float => .float F64.nan.toF32 F64.infinity.toF32
  | .long => .long Int64.minValue Int64.maxValue
  | .double => .double F64.nan F64.infinity
  | _ => .string none (some (stringToBytes toLowercase IsarValue.maxString true)) true

/-- Lists of objects have no such condition. -/
theorem comparisonFilter_isNotEmpty {p : NativeProperty} {t : DataType}
    (element : p.dataType.elementType = some t) :
    comparisonFilter toLowercase (some p) .greaterOrEqual none none true =
      if t = .object then .stat false else .any p.offset (openTest toLowercase t) := by
  have any (scalar list : DataType) (test : ValueTest) (type : p.dataType = list)
      (other : list ≠ scalar) : NativeFilter.create p scalar list test = .any p.offset test := by
    rw [NativeFilter.create, if_neg (type ▸ other), if_pos type]
  unfold comparisonFilter
  simp only [comparisonBounds, getMax, nativeBetweenFilter]
  cases type : p.dataType <;> rw [type] at element <;> cases element
  case boolList => exact any .bool .boolList _ type (by decide)
  case byteList => exact any .byte .byteList _ type (by decide)
  case intList => exact any .int .intList _ type (by decide)
  case floatList => exact any .float .floatList _ type (by decide)
  case longList => exact any .long .longList _ type (by decide)
  case doubleList => exact any .double .doubleList _ type (by decide)
  case stringList => exact any .string .stringList _ type (by decide)
  case objectList => rfl

/-- A test that accepts every value that can be read. -/
theorem map_accepts {α : Type} {read : Option α} (readable : read.isSome) {test : α → Bool}
    (accepts : ∀ v, test v = true) : read.map test = some true := by
  obtain ⟨v, rfl⟩ := Option.isSome_iff_exists.mp readable
  rw [Option.map_some, accepts]

theorem double_accepts (v : F64) :
    ((F64.nan.le v || F64.nan.isNan) && (v.le F64.infinity || v.isNan)) = true := by
  rw [test_iff, realOrder_nan]
  exact ⟨bot_le, le_infinity v⟩

theorem float_accepts (v : F32) :
    ((F64.nan.toF32.le v || F64.nan.toF32.isNan) && (v.le F64.infinity.toF32 || v.isNan)) =
      true := by
  rw [← toF64_nan, ← toF64_infinity, float_test, toF64_nan, toF64_infinity]
  exact double_accepts v.toF64

theorem byte_accepts {d : IsarDeserializer} {offset : Nat} (readable : (d.readByte offset).isSome) :
    (openTest toLowercase .byte).evaluate toLowercase d offset = some true := by
  refine map_accepts readable fun v => decide_eq_true ⟨UInt8.zero_le, ?_⟩
  exact UInt8.le_iff_toNat_le.mpr (Nat.le_of_lt_succ v.toNat_lt)

/-- Null is the least value, so that all scalars but strings are below the upper bound. -/
theorem openTest_accepts {all : List NativeCollection} {d : IsarDeserializer} {t : DataType}
    {embedded : Option UInt16} {index : UInt32} {offset : Nat}
    (plain : t = .bool ∨ t = .byte ∨ t = .int ∨ t = .float ∨ t = .long ∨ t = .double)
    (safe : (Reader.list d t embedded).Safe all index)
    (place : (index * UInt32.ofNat t.staticSize).toNat = offset) :
    (openTest toLowercase t).evaluate toLowercase d offset = some true := by
  subst place
  rcases plain with rfl | rfl | rfl | rfl | rfl | rfl
  · exact map_accepts safe.bool fun v => by rcases v with _ | _ | _ <;> rfl
  · exact byte_accepts safe.byte
  · refine map_accepts safe.int fun v => decide_eq_true ⟨Int32.minValue_le v, ?_⟩
    exact Int32.le_maxValue v
  · exact map_accepts safe.float float_accepts
  · refine map_accepts safe.long fun v => decide_eq_true ⟨Int64.minValue_le v, ?_⟩
    exact Int64.le_maxValue v
  · exact map_accepts safe.double double_accepts

/-- Of the strings those up to the greatest character are accepted, and null. -/
theorem openTest_string {d : IsarDeserializer} {offset : Nat} {v : Option (List Char)}
    (read : d.readString offset = some (v.map Utf8.encode)) :
    (openTest toLowercase .string).evaluate toLowercase d offset =
      some (v.all fun s => decide (s ≤ IsarValue.maxString)) := by
  have bounds := @stringBetween_eq toLowercase true v none
    (some IsarValue.maxString)
  have compared : (⊥ ≤ folded toLowercase true v ∧
      folded toLowercase true v ≤ (IsarValue.maxString :)) ↔
      (v.all fun s => decide (s ≤ IsarValue.maxString)) = true := by
    cases v with
    | none => simp
    | some s => simp [foldCase]
  simp only [openTest, ValueTest.evaluate, read, Option.bind_eq_bind, Option.bind_some]
  refine bounds.trans (congrArg some ?_)
  rw [folded_none, Bool.eq_iff_iff, decide_eq_true_eq]
  exact compared

/-! ## Stored lists -/

theorem readsBack_of_mem {all : List NativeCollection} {r : Reader}
    {writes : List (UInt32 × Written)} (reads : r.ReadsAll all writes) {index : UInt32}
    {value : Written} (mem : (index, value) ∈ writes) :
    ∃ p, r.getProperty index = some p ∧ r.ReadsBack all index p.dataType value := by
  induction writes with
  | nil => cases mem
  | cons write writes ih =>
    obtain ⟨first, rest⟩ := reads
    rcases List.mem_cons.mp mem with same | later
    · cases same
      exact first
    · exact ih rest later

/-- The bytes of a list are counted by three bytes. -/
theorem size_of_readList {object elements : IsarDeserializer} {offset length : Nat} {t : DataType}
    (read : object.readList offset t = some (some (elements, length))) :
    length * t.staticSize < 2 ^ 24 := by
  unfold IsarDeserializer.readList at read
  obtain ⟨nested, opened, read⟩ := Option.bind_eq_some_iff.mp read
  cases nested with
  | none => cases read
  | some nested =>
    cases read
    have small : elements.staticSize < 2 ^ 24 := by
      unfold IsarDeserializer.readNested at opened
      obtain ⟨o, -, opened⟩ := Option.bind_eq_some_iff.mp opened
      cases o with
      | none => cases opened
      | some o =>
        obtain ⟨-, opened⟩ := Option.ite_none_right_eq_some.mp opened
        obtain ⟨object, from_, same⟩ := Option.bind_eq_some_iff.mp opened
        cases same
        unfold IsarDeserializer.fromBytes at from_
        obtain ⟨size, header, same⟩ := Option.bind_eq_some_iff.mp from_
        cases same
        exact (at_of_readLe header).2
    exact Nat.lt_of_le_of_lt (Nat.div_mul_le_self _ _) small

/-- The place of an element of a list. -/
theorem place_of_element {i length : Nat} {t : DataType} (inside : i < length)
    (size : length * t.staticSize < 2 ^ 24) :
    (UInt32.ofNat i).toNat = i ∧
      (UInt32.ofNat i * UInt32.ofNat t.staticSize).toNat = i * t.staticSize := by
  have positive := t.staticSize_pos
  have le : i * t.staticSize ≤ length * t.staticSize := Nat.mul_le_mul_right _ (Nat.le_of_lt inside)
  have small : i < 2 ^ 32 := by
    have : i * 1 ≤ i * t.staticSize := Nat.mul_le_mul_left i positive
    omega
  have width : t.staticSize < 2 ^ 32 := Nat.lt_of_le_of_lt t.staticSize_le (by decide)
  have index : (UInt32.ofNat i).toNat = i := UInt32.toNat_ofNat_of_lt' small
  refine ⟨index, ?_⟩
  rw [UInt32.toNat_mul, index, UInt32.toNat_ofNat_of_lt' width]
  exact Nat.mod_eq_of_lt (by omega)

theorem dataType_openTest {p : NativeProperty} {t : DataType}
    (element : p.dataType.elementType = some t) (notObject : t ≠ .object) :
    (openTest toLowercase t).dataType = t := by
  cases type : p.dataType <;> rw [type] at element <;> cases element
  case objectList => exact absurd rfl notObject
  all_goals rfl

theorem scalar_of_element {p : NativeProperty} {t : DataType}
    (element : p.dataType.elementType = some t) (notObject : t ≠ .object) :
    t = .string ∨ t = .bool ∨ t = .byte ∨ t = .int ∨ t = .float ∨ t = .long ∨ t = .double := by
  cases type : p.dataType <;> rw [type] at element <;> cases element
  case objectList => exact absurd rfl notObject
  all_goals simp

/-- The elements that `isNotEmpty` accepts: null, and what is not greater than the greatest
character. -/
def acceptsElement : Written → Bool
  | .string s => decide (s ≤ IsarValue.maxString)
  | _ => true

/-- Whether `isNotEmpty` finds an element in what was written to a list with elements of this
type. -/
def findsElement (t : DataType) : Written → Bool
  | .list length writes =>
    if t = .object then false
    else if t = .string then writes.any fun write => acceptsElement write.2
    else decide (0 < length.toNat)
  | .byteList bytes => decide (0 < bytes.length)
  | _ => false

/-- The number of elements of what was written to a list; null has none. -/
def writtenLength : Written → Option Nat
  | .list length _ => some length.toNat
  | .byteList bytes => some bytes.length
  | _ => none

section
variable {all : List NativeCollection} {object elements : IsarDeserializer} {offset : Nat}
  {t : DataType} {embedded : Option UInt16} {length : UInt32} {writes : List (UInt32 × Written)}
  {n : Nat}

theorem evaluateAny_of_readList (test : ValueTest)
    (read : object.readList offset test.dataType = some (some (elements, n))) :
    test.evaluateAny toLowercase object offset = (List.range n).anyM fun i =>
      test.evaluate toLowercase elements (i * test.dataType.staticSize) := by
  rw [ValueTest.evaluateAny, read]
  rfl

/-- A test that accepts every element finds one in every list that is not empty. -/
theorem evaluateAny_of_accepted (test : ValueTest)
    (read : object.readList offset test.dataType = some (some (elements, n)))
    (accepted : ∀ i < n,
      test.evaluate toLowercase elements (i * test.dataType.staticSize) = some true) :
    test.evaluateAny toLowercase object offset = some (decide (0 < n)) := by
  have each : (List.range n).anyM (fun i =>
      test.evaluate toLowercase elements (i * test.dataType.staticSize)) =
        some ((List.range n).any fun _ => true) :=
    anyM_eq_some fun i mem => accepted i (List.mem_range.mp mem)
  rw [evaluateAny_of_readList test read, each]
  refine congrArg some ?_
  rw [Bool.eq_iff_iff, List.any_eq_true, decide_eq_true_eq]
  constructor
  · rintro ⟨i, mem, -⟩
    exact Nat.zero_lt_of_lt (List.mem_range.mp mem)
  · intro positive
    exact ⟨0, List.mem_range.mpr positive, rfl⟩

/-- Elements that are no strings are accepted whatever they are. -/
theorem evaluateAny_plain
    (plain : t = .bool ∨ t = .byte ∨ t = .int ∨ t = .float ∨ t = .long ∨ t = .double)
    (type : (openTest toLowercase t).dataType = t)
    (read : object.readList offset t = some (some (elements, n)))
    (safe : ∀ index, (Reader.list elements t embedded).InRange index →
      (Reader.list elements t embedded).Safe all index) :
    (openTest toLowercase t).evaluateAny toLowercase object offset = some (decide (0 < n)) := by
  have size := size_of_readList read
  refine evaluateAny_of_accepted _ (type.symm ▸ read) fun i inside => ?_
  obtain ⟨index, place⟩ := place_of_element inside size
  rw [type]
  apply openTest_accepts plain (safe (UInt32.ofNat i) ?_) place
  show (UInt32.ofNat i).toNat * t.staticSize < 2 ^ 32
  have : i * t.staticSize ≤ n * t.staticSize := Nat.mul_le_mul_right _ (Nat.le_of_lt inside)
  rw [index]
  omega

/-- Bytes that are written at once are read one by one. -/
theorem readList_of_readDynamic {bytes : Bytes}
    (read : object.readDynamic offset = some (some bytes)) :
    ∃ elements, object.readList offset .byte = some (some (elements, bytes.length)) ∧
      ∀ i < bytes.length, (elements.readByte i).isSome := by
  unfold IsarDeserializer.readDynamic at read
  obtain ⟨found, located, read⟩ := Option.bind_eq_some_iff.mp read
  cases found with
  | none => cases read
  | some place =>
    obtain ⟨o, length⟩ := place
    obtain ⟨data, sliced, same⟩ := Option.bind_eq_some_iff.mp read
    cases same
    obtain ⟨count, at_⟩ := slice_eq_some.mp sliced
    have bound := at_.bound
    unfold IsarDeserializer.getOffsetLength at located
    obtain ⟨start, offset_, located⟩ := Option.bind_eq_some_iff.mp located
    cases start with
    | none => cases located
    | some start =>
      obtain ⟨_, header, same⟩ := Option.bind_eq_some_iff.mp located
      cases same
      have near : start ≤ object.bytes.length := by omega
      obtain ⟨written, fits⟩ := at_of_readLe header
      have size : readU24 (object.bytes.drop start) 0 = some length :=
        readLe_of_at ((at_drop near).mpr written) fits
      subst count
      let elements : IsarDeserializer := ⟨(object.bytes.drop start).drop 3, bytes.length⟩
      refine ⟨elements, ?_, fun i inside => ?_⟩
      · simp [IsarDeserializer.readList, IsarDeserializer.readNested, offset_, near,
          IsarDeserializer.fromBytes, size, elements, DataType.staticSize]
      · have enough : i + 1 ≤ elements.bytes.length := by
          simp only [elements, List.length_drop]
          omega
        simp [IsarDeserializer.readByte, IsarDeserializer.containsOffset, inside, slice, enough,
          show elements.staticSize = bytes.length from rfl]

theorem evaluateAny_bytes {bytes : Bytes}
    (read : object.readDynamic offset = some (some bytes)) :
    (openTest toLowercase .byte).evaluateAny toLowercase object offset =
      some (decide (0 < bytes.length)) := by
  obtain ⟨elements, list, readable⟩ := readList_of_readDynamic read
  refine evaluateAny_of_accepted _ list fun i inside => ?_
  have place : i * (openTest toLowercase .byte).dataType.staticSize = i := Nat.mul_one i
  rw [place]
  exact byte_accepts (readable i inside)

/-- Of strings those are accepted that are not greater than the greatest character. -/
theorem evaluateAny_string
    (read : object.readList offset .string = some (some (elements, length.toNat)))
    (reads : (Reader.list elements .string embedded).ReadsAll all writes)
    (complete : Complete length writes)
    (typed : TypedAll all (.list .string embedded length) writes) :
    (openTest toLowercase .string).evaluateAny toLowercase object offset =
      some (writes.any fun write => acceptsElement write.2) := by
  have size := size_of_readList read
  have evaluated (index : UInt32) (value : Written) (mem : (index, value) ∈ writes) :
      index < length ∧ (openTest toLowercase .string).evaluate toLowercase elements
        (index.toNat * DataType.string.staticSize) = some (acceptsElement value) := by
    obtain ⟨p, found, back⟩ := readsBack_of_mem reads mem
    obtain ⟨q, place, typed⟩ := typed_of_typedAll typed _ mem
    obtain ⟨inside, rfl⟩ := WriterImpl.property_list.mp place
    refine ⟨inside, ?_⟩
    have offset := (place_of_element (UInt32.lt_iff_toNat_lt.mp inside) size).2
    rw [UInt32.ofNat_toNat] at offset
    rw [← offset]
    cases found
    cases value with
    | null =>
      exact openTest_string (v := none) back.2
    | string s => exact openTest_string (v := some s) back.1
    | _ => simp [Typed, DataType.elementType] at typed
  -- What the element of an index is worth.
  let f (i : Nat) : Bool := writes.any fun write => write.1.toNat = i && acceptsElement write.2
  have accepted (i : Nat) (mem : i ∈ List.range length.toNat) :
      (openTest toLowercase .string).evaluate toLowercase elements
        (i * DataType.string.staticSize) = some (f i) := by
    have inside := List.mem_range.mp mem
    obtain ⟨toNat, -⟩ := place_of_element inside size
    obtain ⟨⟨index, value⟩, written, same⟩ := List.mem_map.mp
      (complete.2 (UInt32.ofNat i) (UInt32.lt_iff_toNat_lt.mpr (by rw [toNat]; exact inside)))
    have at_ : index.toNat = i := (congrArg UInt32.toNat same).trans toNat
    rw [← at_, (evaluated index value written).2]
    refine congrArg some ?_
    rw [Bool.eq_iff_iff, List.any_eq_true]
    constructor
    · intro accepts
      exact ⟨_, written, by simpa [at_] using accepts⟩
    · rintro ⟨⟨other, value'⟩, mem', holds⟩
      obtain ⟨same', accepts⟩ := Bool.and_eq_true_iff.mp holds
      have : other = index := UInt32.toNat_inj.mp (of_decide_eq_true same')
      subst this
      have once := List.inj_on_of_nodup_map complete.1 mem' written rfl
      cases once
      exact accepts
  have type : (openTest toLowercase .string).dataType = .string := rfl
  rw [evaluateAny_of_readList _ read, type, anyM_eq_some accepted]
  refine congrArg some ?_
  rw [Bool.eq_iff_iff, List.any_eq_true, List.any_eq_true]
  constructor
  · rintro ⟨i, -, holds⟩
    obtain ⟨write, mem, holds⟩ := List.any_eq_true.mp holds
    exact ⟨write, mem, (Bool.and_eq_true_iff.mp holds).2⟩
  · rintro ⟨⟨index, value⟩, mem, accepts⟩
    have inside := UInt32.lt_iff_toNat_lt.mp (evaluated index value mem).1
    refine ⟨index.toNat, List.mem_range.mpr inside, List.any_eq_true.mpr ⟨_, mem, ?_⟩⟩
    simpa using accepts

theorem readList_object {id : Int64} {c : NativeCollection} {index : UInt32} {p : NativeProperty}
    (found : (Reader.object id object c).getProperty index = some p)
    (element : p.dataType.elementType = some t) :
    (Reader.object id object c).readList index = (object.readList p.offset t).map
      (Option.map fun e => (.list e.1 t p.embeddedCollectionIndex, e.2)) := by
  simp only [Reader.readList, found, element]
  cases object.readList p.offset t with
  | none => rfl
  | some e => cases e <;> rfl

theorem readList_of_readsNull {r : Reader} {index : UInt32} {list : DataType}
    (element : list.elementType = some t) (null : r.ReadsNull all index list) :
    r.isNull index = some true ∧ r.readList index = some none := by
  obtain ⟨isNull, read⟩ := null
  cases list <;> cases element
  case byteList => exact ⟨isNull, read.2⟩
  all_goals exact ⟨isNull, read⟩

/-- The filters on a list that was written. -/
theorem evaluate_written {id : Int64} {c : NativeCollection} {index : UInt32} {p : NativeProperty}
    {value : Written} (found : (Reader.object id object c).getProperty index = some p)
    (element : p.dataType.elementType = some t) (typed : Typed all p value)
    (back : (Reader.object id object c).ReadsBack all index p.dataType value) :
    object.isNull p.offset p.dataType = some (writtenLength value).isNone ∧
      (comparisonFilter toLowercase (some p) .greaterOrEqual none none true).evaluate toLowercase
        id object = some (findsElement t value) := by
  have isNull : object.isNull p.offset p.dataType = (Reader.object id object c).isNull index := by
    rw [Reader.isNull, found]
    rfl
  have readList := readList_object (t := t) found element
  have scalar := scalar_of_element element
  rw [isNull, comparisonFilter_isNotEmpty element]
  cases value with
  | null =>
    obtain ⟨null, none'⟩ := readList_of_readsNull element back
    rw [readList] at none'
    refine ⟨null, ?_⟩
    split
    · rfl
    · rename_i notObject
      obtain ⟨read, readNone, eq⟩ := Option.map_eq_some_iff.mp none'
      cases Option.map_eq_none_iff.mp eq
      rw [NativeFilter.evaluate, ValueTest.evaluateAny, dataType_openTest element notObject,
        readNone]
      rfl
  | byteList bytes =>
    have type : p.dataType = .byteList := typed
    rw [type] at element
    cases element
    obtain ⟨read, notNull⟩ := back
    have dynamic : object.readDynamic p.offset = some (some bytes) := by
      rw [← read, Reader.readBlob, Reader.readAt, found]
      exact (if_pos type).symm
    refine ⟨notNull, ?_⟩
    rw [if_neg (by decide)]
    exact evaluateAny_bytes dynamic
  | list length writes =>
    obtain ⟨complete, t', element', typed⟩ := typed
    obtain rfl : t = t' := Option.some.inj (element.symm.trans element')
    obtain ⟨notNull, nested, read, reads, safe⟩ := back
    rw [readList] at read
    obtain ⟨e, listed, eq⟩ := Option.map_eq_some_iff.mp read
    obtain ⟨⟨elements, n⟩, rfl, same⟩ := Option.map_eq_some_iff.mp eq
    cases same
    refine ⟨notNull, ?_⟩
    split
    · rename_i isObject
      simp [NativeFilter.evaluate, findsElement, isObject]
    · rename_i notObject
      have type := @dataType_openTest toLowercase p _ element notObject
      rcases scalar notObject with rfl | plain
      · exact evaluateAny_string listed reads complete typed
      · have notString : t ≠ .string := by
          rintro rfl
          simp at plain
        rw [NativeFilter.evaluate, evaluateAny_plain plain type listed safe, findsElement,
          if_neg notObject, if_neg notString]
        rfl
  | string =>
    rcases typed with type | type <;> rw [type] at element <;> cases element
  | object =>
    rw [typed.1] at element
    cases element
  | _ =>
    rw [show p.dataType = _ from typed] at element
    cases element

end

end IsarPlus.Native
