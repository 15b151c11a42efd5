import IsarPlus.Engines.StringPatterns
import IsarPlus.Native.Proofs.ListFilters
import IsarPlus.Native.Proofs.ObjectLimit
import IsarPlus.Sqlite.Proofs.ListConditions

/-!
# Empty lists in both engines

On which lists `isNull`, `isEmpty` and `isNotEmpty` say how many elements there are. The native
engine has no condition on objects in a list and asks of strings that they are not greater than the
greatest character; SQLite does not read JSON that is nested too deeply, nor bytes as a list.
-/

namespace IsarPlus
open ByteBuffer Scalar Native Sqlite

/-- The filters on the emptiness of a nullable list select by its length, which null has none of. -/
structure EmptinessExact (selects : Filter → Option Bool) (index : UInt16)
    (length : Option Nat) : Prop where
  isNull : selects (.condition (Dart.isNullCondition index)) = some length.isNone
  isNotEmpty : selects (.condition (Dart.isNotEmptyCondition index)) =
    some (length.any (0 < ·))
  isEmpty : ∃ filter, Dart.passedFilter (Dart.isEmptyChain index) = some filter ∧
    selects filter = some (length.any (· = 0))

/-- One of the filters selects an object and the others do not. -/
theorem EmptinessExact.selects_once {selects : Filter → Option Bool} {index : UInt16}
    {length : Option Nat} (exact : EmptinessExact selects index length) :
    ∃ filter, Dart.passedFilter (Dart.isEmptyChain index) = some filter ∧
      ([Filter.condition (Dart.isNullCondition index), filter,
        .condition (Dart.isNotEmptyCondition index)].map selects).count (some true) = 1 := by
  obtain ⟨filter, passed, empty⟩ := exact.isEmpty
  refine ⟨filter, passed, ?_⟩
  simp only [List.map_cons, List.map_nil, exact.isNull, empty, exact.isNotEmpty]
  cases length with
  | none => rfl
  | some n => cases n <;> rfl

/-- If `isEmpty` is neither of the others, then these decide. -/
theorem emptinessExact_iff {selects : Filter → Option Bool} {index : UInt16}
    {length : Option Nat} {null nonempty : Bool}
    (isNull : selects (.condition (Dart.isNullCondition index)) = some null)
    (isNotEmpty : selects (.condition (Dart.isNotEmptyCondition index)) = some nonempty)
    (neither : selects (.not (.or [.condition (Dart.isNullCondition index),
      .condition (Dart.isNotEmptyCondition index)])) = some !(null || nonempty)) :
    EmptinessExact selects index length ↔
      null = length.isNone ∧ nonempty = length.any (0 < ·) := by
  constructor
  · intro exact
    exact ⟨Option.some.inj (isNull.symm.trans exact.isNull),
      Option.some.inj (isNotEmpty.symm.trans exact.isNotEmpty)⟩
  · rintro ⟨rfl, rfl⟩
    refine ⟨isNull, isNotEmpty, _, Dart.passedFilter_isEmptyChain index, neither.trans ?_⟩
    cases length with
    | none => rfl
    | some n => cases n <;> rfl

/-! ## The native engine -/

/-- Lists whose elements the native engine finds: it finds no objects, and of strings null and those
that are not greater than the greatest character. -/
def NativeFinds (t : DataType) : Written → Prop
  | .list length writes => 0 < length.toNat → t ≠ .object ∧
      (t = .string → ∃ write ∈ writes, acceptsElement write.2 = true)
  | _ => True

section
variable {toLowercase : List Char → List Char} {all : List NativeCollection}
  {c : NativeCollection} {writes : List (UInt32 × Written)} {bytes : Bytes}
  {object : IsarDeserializer} {id : Int64} {index : UInt32} {value : Written} {p : NativeProperty}
  {t : DataType}

/-- Nothing is written to an empty list. -/
theorem length_pos_of_written {length : UInt32} {embedded : Option UInt16}
    {write : UInt32 × Written} (typed : TypedAll all (.list t embedded length) writes)
    (mem : write ∈ writes) : 0 < length.toNat := by
  obtain ⟨q, place, -⟩ := typed_of_typedAll typed write mem
  obtain ⟨inside, -⟩ := WriterImpl.property_list.mp place
  exact Nat.zero_lt_of_lt (UInt32.lt_iff_toNat_lt.mp inside)

theorem findsElement_iff (element : p.dataType.elementType = some t)
    (typed : Native.Typed all p value) :
    findsElement t value = (writtenLength value).any (0 < ·) ↔ NativeFinds t value := by
  cases value with
  | list length writes =>
    obtain ⟨-, t', element', typed⟩ := typed
    obtain rfl : t = t' := Option.some.inj (element.symm.trans element')
    simp only [findsElement, writtenLength, Option.any_some, NativeFinds]
    by_cases isObject : t = .object
    · rw [if_pos isObject, eq_comm, decide_eq_false_iff_not]
      constructor
      · intro empty positive
        exact absurd positive empty
      · intro finds positive
        exact (finds positive).1 isObject
    by_cases isString : t = .string
    · rw [if_neg isObject, if_pos isString, Bool.eq_iff_iff, List.any_eq_true, decide_eq_true_eq]
      constructor
      · intro same positive
        exact ⟨isObject, fun _ => same.mpr positive⟩
      · intro finds
        refine ⟨?_, fun positive => (finds positive).2 isString⟩
        rintro ⟨write, mem, -⟩
        exact length_pos_of_written typed mem
    · simp [isObject, isString]
  | _ => simp [findsElement, writtenLength, NativeFinds]

theorem typed_of_getProperty (typed : TypedAll all (.object c) writes) (mem : (index, value) ∈ writes)
    (property : c.getProperty index.toUInt16 = some p) : Native.Typed all p value := by
  induction writes with
  | nil => cases mem
  | cons write writes ih =>
    obtain ⟨⟨addressed, q, found, first⟩, rest⟩ := typed
    rcases List.mem_cons.mp mem with same | later
    · cases same
      have exact' := WriterImpl.exact_object c index q addressed found
      obtain rfl : p = q := Option.some.inj (property.symm.trans exact')
      exact first
    · exact ih rest later

/-- The native engine is exact on the lists whose elements it finds. -/
theorem native_emptiness (restores : c.Restores all id bytes writes)
    (typed : TypedAll all (.object c) writes)
    (read : IsarDeserializer.fromBytes bytes = some object) (mem : (index, value) ∈ writes)
    (property : c.getProperty index.toUInt16 = some p)
    (element : p.dataType.elementType = some t) :
    EmptinessExact (nativeSelects toLowercase c all id object) index.toUInt16
        (writtenLength value) ↔ NativeFinds t value := by
  obtain ⟨r, reader, -, reads, -⟩ := restores
  have same : r = .object id object c := by
    rw [NativeCollection.reader, read] at reader
    exact (Option.some.inj reader).symm
  subst same
  obtain ⟨q, found, back⟩ := readsBack_of_mem reads mem
  obtain rfl : p = q := Option.some.inj (property.symm.trans found)
  have valueTyped := typed_of_getProperty typed mem property
  obtain ⟨isNull, isNotEmpty⟩ := @evaluate_written toLowercase all object t id c index p value found
    element valueTyped back
  have null : filterToNative toLowercase c all (.condition (Dart.isNullCondition index.toUInt16)) =
      some (.isNull p.offset p.dataType) := by
    rw [filterToNative, conditionToNative]
    simp [Dart.isNullCondition, property]
  have nonempty : filterToNative toLowercase c all
      (.condition (Dart.isNotEmptyCondition index.toUInt16)) =
        some (comparisonFilter toLowercase (some p) .greaterOrEqual none none true) := by
    rw [← property]
    refine filterToNative_comparison rfl ⟨rfl, fun between => ?_⟩
    cases between
  have neither : nativeSelects toLowercase c all id object
      (.not (.or [.condition (Dart.isNullCondition index.toUInt16),
        .condition (Dart.isNotEmptyCondition index.toUInt16)])) =
          some !((writtenLength value).isNone || findsElement t value) := by
    rw [nativeSelects, filterToNative, filterToNative, filtersToNative, null, filtersToNative,
      nonempty, filtersToNative]
    simp only [Option.bind_eq_bind, Option.bind_some, Option.pure_def, Option.map_some,
      NativeFilter.evaluate, NativeFilter.evaluateSome, isNull, isNotEmpty]
    cases (writtenLength value).isNone <;> cases findsElement t value <;> rfl
  have exact_iff := @emptinessExact_iff (nativeSelects toLowercase c all id object) index.toUInt16
    (writtenLength value) _ _ ((congrArg (Option.bind · _) null).trans isNull)
    ((congrArg (Option.bind · _) nonempty).trans isNotEmpty) neither
  rw [exact_iff, findsElement_iff element valueTyped]
  exact and_iff_right rfl

end

/-! ## SQLite -/

/-- Lists whose length SQLite finds in their column: arrays that `serde_json` reads, and bytes that
happen to be the text of an array with elements. -/
def SqlFinds (platform : Platform) (codecs : Codecs) (tables : List SQLiteCollection)
    (column : SQLiteProperty) (index : UInt16) : Written → Prop
  | .list length writes =>
    (Json.array (listJson codecs tables column index length writes)).depth < 128
  | .byteList bytes => ∃ first rest, platform.columnJson (.blob bytes) = .array (first :: rest)
  | _ => True

/-- What is written for a list. -/
theorem written_list_cases {all : List NativeCollection} {p : NativeProperty} {t : DataType}
    {value : Written} (element : p.dataType.elementType = some t)
    (typed : Native.Typed all p value) : value = .null ∨ (∃ bytes, value = .byteList bytes) ∨
      ∃ length writes, value = .list length writes := by
  cases value with
  | null => exact Or.inl rfl
  | byteList bytes => exact Or.inr (Or.inl ⟨bytes, rfl⟩)
  | list length writes => exact Or.inr (Or.inr ⟨length, writes, rfl⟩)
  | string =>
    rcases typed with type | type <;> rw [type] at element <;> cases element
  | object =>
    rw [typed.1] at element
    cases element
  | _ =>
    rw [show p.dataType = _ from typed] at element
    cases element

/-- Columns of lists keep what is bound to them. -/
theorem columnValue_list {list t : DataType} (element : list.elementType = some t)
    (value : Sql.Value) : columnValue list value = value := by
  cases list <;> cases element <;> rfl

section
variable {platform : Platform} {codecs : Codecs} {tables : List SQLiteCollection}
  {tableIndex : UInt16} {table : SQLiteCollection} {column : SQLiteProperty}
  {row : String → Sql.Value} {index : UInt16} {value : Written} {t : DataType}

/-- SQLite is exact on the lists whose length it finds. -/
theorem sql_emptiness (laws : platform.Laws) (text_blob : platform.valueText (.blob []) = [])
    (hTable : tables[tableIndex.toNat]? = some table)
    (hColumn : table.getProperty index = some column)
    (element : column.dataType.elementType = some t)
    (hRow : row column.name =
      columnValue column.dataType ((value.bound codecs tables column index).getD .null))
    (list : value = .null ∨ (∃ bytes, value = .byteList bytes) ∨
      ∃ length writes, value = .list length writes)
    (prints : ∀ length writes, value = .list length writes →
      PrintsArray platform codecs (listJson codecs tables column index length writes)) :
    EmptinessExact (sqlSelects platform tables tableIndex row) index (writtenLength value) ↔
      SqlFinds platform codecs tables column index value := by
  have isList : column.dataType.isList = true := by
    rw [DataType.isList, element]
    rfl
  obtain ⟨null, nonempty, neither⟩ := @run_emptiness platform tables tableIndex table column row
    index hTable hColumn isList
  have selects {filter : Filter} {m : Bool} (runs : ∃ text v,
      filterSql platform.toLowercase tables tableIndex filter = some text ∧
        Sql.run (platform.env row) text = some v ∧ (v == some true) = m) :
      sqlSelects platform tables tableIndex row filter = some m := by
    obtain ⟨text, v, translated, ran, value⟩ := runs
    simp only [sqlSelects, translated, ran, Option.bind_eq_bind, Option.bind_some, Option.pure_def,
      value]
  rw [emptinessExact_iff (selects null) (selects nonempty) (selects neither), hRow,
    columnValue_list element]
  have absent : platform.columnJson .null = .null := by
    simp [Platform.columnJson, laws.text_null, laws.fromStr_nil]
  rcases list with rfl | ⟨bytes, rfl⟩ | ⟨length, writes, rfl⟩
  · simp [Written.bound, absent, writtenLength, SqlFinds, Json.isNull, Json.length?]
  · simp only [Written.bound, Option.getD_some, writtenLength, SqlFinds]
    cases bytes with
    | nil =>
      have null : platform.columnJson (.blob []) = .null := by
        simp [Platform.columnJson, text_blob, laws.fromStr_nil]
      simp [null, Json.isNull]
    | cons byte bytes =>
      cases platform.columnJson (.blob (byte :: bytes)) with
      | array values => cases values <;> simp [Json.isNull, Json.length?]
      | _ => simp [Json.isNull, Json.length?]
  · have text : ((Written.list length writes).bound codecs tables column index).getD .null =
        .text (codecs.toString (.array (listJson codecs tables column index length writes))) := rfl
    obtain ⟨shallow, deep⟩ := prints length writes rfl
    rw [text, Platform.columnJson, laws.text_text]
    simp only [writtenLength, SqlFinds]
    by_cases read : (Json.array (listJson codecs tables column index length writes)).depth < 128
    · obtain ⟨values, parsed, same⟩ := shallow read
      rw [length_listJson] at same
      simp [parsed, Json.isNull, Json.length?, same, read]
    · simp [deep (Nat.le_of_not_lt read), Json.isNull, read]

end

/-! ## Both engines -/

/-- Both engines are exact on the lists whose elements they find. -/
theorem list_emptiness_exact {xxh3_64 : Bytes → UInt64} {d : Database} {events : List Event}
    (run : Run (Database.Step xxh3_64) Database.new events d) {c : NativeCollection}
    (opened : c ∈ d.collections) {writes : List (UInt32 × Written)}
    (typed : TypedAll d.collections (.object c) writes) (nodup : (writes.map Prod.fst).Nodup)
    {count : Nat} {insert : NativeInsert}
    (written : c.writeObject d.collections count writes = some insert)
    {object : IsarDeserializer}
    (read : IsarDeserializer.fromBytes insert.object.finish = some object) (id : Int64)
    {index : UInt32} {value : Written} (mem : (index, value) ∈ writes) {p : NativeProperty}
    (property : c.getProperty index.toUInt16 = some p) {t : DataType}
    (element : p.dataType.elementType = some t) {platform : Platform} (laws : platform.Laws)
    (text_blob : platform.valueText (.blob []) = []) {codecs : Codecs}
    {tables : List SQLiteCollection} {tableIndex : UInt16} {table : SQLiteCollection}
    {column : SQLiteProperty} {row : String → Sql.Value}
    (hTable : tables[tableIndex.toNat]? = some table)
    (hColumn : table.getProperty index.toUInt16 = some column)
    (columnType : column.dataType = p.dataType)
    (hRow : row column.name =
      columnValue column.dataType ((value.bound codecs tables column index.toUInt16).getD .null))
    (prints : ∀ length writes, value = .list length writes →
      PrintsArray platform codecs (listJson codecs tables column index.toUInt16 length writes)) :
    (EmptinessExact (nativeSelects platform.toLowercase c d.collections id object) index.toUInt16
        (writtenLength value) ∧
      EmptinessExact (sqlSelects platform tables tableIndex row) index.toUInt16
        (writtenLength value)) ↔
      NativeFinds t value ∧ SqlFinds platform codecs tables column index.toUInt16 value := by
  have laid (c : NativeCollection) (mem : c ∈ d.collections) :=
    (Database.Laid.run run).collection mem
  have fits := NativeCollection.objectFits_of_writeObject laid opened typed written
  obtain ⟨_, written', -, encodes⟩ :=
    NativeCollection.writeObject_spec count laid opened typed nodup fits
  cases written.symm.trans written'
  have restores := @NativeCollection.Encodes.restores d.collections c writes _ id laid opened typed
    fits encodes
  have list := written_list_cases element (typed_of_getProperty typed mem property)
  rw [native_emptiness restores typed read mem property element,
    sql_emptiness laws text_blob hTable hColumn (columnType ▸ element) hRow list prints]

/-! ### Posts -/

/-- A schema with a list of strings and a list of objects. -/
def postSchema : IsarSchema where
  name := "Post"
  idName := some "id"
  embedded := false
  properties := [⟨some "tags", .stringList, none⟩, ⟨some "replies", .objectList, some "Reply"⟩]
  indexes := []
  version := 0

def replySchema : IsarSchema where
  name := "Reply"
  idName := none
  embedded := true
  properties := [⟨some "text", .string, none⟩]
  indexes := []
  version := 0

def replies : NativeCollection := .new 1 "Reply" none [("text", ⟨.string, 0, none⟩)] [] none

def posts : NativeCollection :=
  .new 0 "Post" (some "id")
    [("tags", ⟨.stringList, 0, none⟩), ("replies", ⟨.objectList, 3, some 1⟩)] [] (some "Post")

theorem posts_opened : ∃ s, Run (Database.Step fun _ => 0) .new
    [.migrate noFaults [postSchema, replySchema]] ⟨s, [posts, replies]⟩ :=
  ⟨_, .cons (.migrate rfl (by decide) rfl) .nil⟩

/-- A tag, and one that is null. -/
def twoTags : Written := .list 2 [(0, .string ['a']), (1, .null)]

/-- The text of these tags. -/
def tagText : List Char := ['[', '"', 'a', '"', ',', 'n', 'u', 'l', 'l', ']']

def tagPlatform : Platform where
  toLowercase := id
  valueText v := match v with
    | .text s => s
    | _ => []
  fromStr s := if s = tagText then some (.array [.string ['a'], .null]) else none

def tagCodecs : Codecs where
  toString := fun _ => tagText
  fromStr := tagPlatform.fromStr
  encode := fun _ => []
  decode := fun _ => none

def tagColumn : SQLiteProperty := ⟨"tags", .stringList, none⟩

def postTable : SQLiteCollection :=
  ⟨"Post", some "id", [tagColumn, ⟨"replies", .objectList, some 1⟩]⟩

theorem list_emptiness_exact_on_tags : ∃ insert object,
    posts.writeObject [posts, replies] 1 [(1, twoTags)] = some insert ∧
      IsarDeserializer.fromBytes insert.object.finish = some object ∧
      ((EmptinessExact (nativeSelects id posts [posts, replies] 7 object) 1
          (writtenLength twoTags) ∧
        EmptinessExact (sqlSelects tagPlatform [postTable] 0 fun _ => .text tagText) 1
          (writtenLength twoTags)) ↔
        NativeFinds .string twoTags ∧
          SqlFinds tagPlatform tagCodecs [postTable] tagColumn 1 twoTags) := by
  obtain ⟨s, run⟩ := posts_opened
  have complete : Complete 2 [(0, Written.string ['a']), (1, .null)] := by
    refine ⟨by decide, fun index inside => ?_⟩
    have small : index.toNat < 2 := inside
    have either : index = 0 ∨ index = 1 := by
      rw [← UInt32.toNat_inj, ← UInt32.toNat_inj]
      show index.toNat = 0 ∨ index.toNat = 1
      omega
    rcases either with rfl | rfl <;> simp
  have typed : TypedAll [posts, replies] (.object posts) [(1, twoTags)] := by
    refine ⟨⟨show 1 < 2 ^ 16 by decide, _, rfl, complete, _, rfl, ?_⟩, trivial⟩
    exact ⟨⟨trivial, _, rfl, Or.inl rfl⟩, ⟨trivial, _, rfl, trivial⟩, trivial⟩
  have laws : tagPlatform.Laws := ⟨fun _ => rfl, rfl, by decide⟩
  have prints (length : UInt32) (writes : List (UInt32 × Written))
      (same : twoTags = .list length writes) :
      PrintsArray tagPlatform tagCodecs
        (listJson tagCodecs [postTable] tagColumn 1 length writes) := by
    cases same
    refine ⟨fun _ => ⟨_, rfl, rfl⟩, fun deep => ?_⟩
    exact absurd deep (by decide)
  have stored : ((posts.writeObject [posts, replies] 1 [(1, twoTags)]).bind fun insert =>
      IsarDeserializer.fromBytes insert.object.finish).isSome := by
    decide +kernel
  obtain ⟨object, stored⟩ := Option.isSome_iff_exists.mp stored
  obtain ⟨insert, written, read⟩ := Option.bind_eq_some_iff.mp stored
  have property : posts.getProperty (1 : UInt32).toUInt16 = some ⟨.stringList, 0, none⟩ := rfl
  have column : postTable.getProperty (1 : UInt32).toUInt16 = some tagColumn := rfl
  exact ⟨insert, object, written, read, list_emptiness_exact run List.mem_cons_self typed
    (List.nodup_singleton _) written read 7 (List.mem_singleton_self _) property rfl laws rfl rfl
    column rfl rfl prints⟩

/-- A list of one object is found empty. -/
theorem objects_found_empty : ∃ insert object filter,
    posts.writeObject [posts, replies] 1 [(2, .list 1 [(0, .object [])])] = some insert ∧
      IsarDeserializer.fromBytes insert.object.finish = some object ∧
      Dart.passedFilter (Dart.isEmptyChain 2) = some filter ∧
      nativeSelects id posts [posts, replies] 7 object
        (.condition (Dart.isNotEmptyCondition 2)) = some false ∧
      nativeSelects id posts [posts, replies] 7 object filter = some true :=
  ⟨_, _, _, rfl, rfl, rfl, rfl, rfl⟩

end IsarPlus
