import IsarPlus.Transfer.JsonExport
import IsarPlus.Transfer.Proofs.JsonImports

/-!
# Exported documents

The documents of exported objects are plain, all their values can be written again, and what is then
shown is what was exported, with floats and JSON as they are read back.
-/

namespace IsarPlus.Native
open ByteBuffer Scalar JsonText OrderedStore
open Sqlite (Written)

/-! ## What is shown belongs to its property -/

section
variable {d nested : IsarDeserializer} {offset length : Nat}

theorem IsarDeserializer.fromBytes_small {bytes : Bytes}
    (h : IsarDeserializer.fromBytes bytes = some d) : d.staticSize < 2 ^ 24 := by
  obtain ⟨size, read, eq⟩ := Option.bind_eq_some_iff.mp h
  cases eq
  exact (at_of_readLe read).2

/-- A list has at most as many elements as three bytes can count. -/
theorem IsarDeserializer.readList_small {t : DataType}
    (h : d.readList offset t = some (some (nested, length))) : length < 2 ^ 24 := by
  obtain ⟨found, read, h⟩ := Option.bind_eq_some_iff.mp h
  cases found with
  | none => cases h
  | some found =>
    cases h
    obtain ⟨start, -, h⟩ := Option.bind_eq_some_iff.mp read
    cases start with
    | none => cases h
    | some start =>
      by_cases inside : start ≤ d.bytes.length
      · simp only [if_pos inside] at h
        obtain ⟨object, opened, eq⟩ := Option.bind_eq_some_iff.mp h
        cases eq
        exact (Nat.div_le_self _ _).trans_lt (IsarDeserializer.fromBytes_small opened)
      · simp only [if_neg inside] at h
        cases h

/-- A string has at most as many bytes as three bytes can count. -/
theorem IsarDeserializer.readString_small {bytes : Bytes}
    (h : d.readString offset = some (some bytes)) : bytes.length < 2 ^ 24 := by
  obtain ⟨found, read, h⟩ := Option.bind_eq_some_iff.mp h
  cases found with
  | none => cases h
  | some found =>
    obtain ⟨start, length⟩ := found
    obtain ⟨value, sliced, eq⟩ := Option.bind_eq_some_iff.mp h
    cases eq
    obtain ⟨o, -, h⟩ := Option.bind_eq_some_iff.mp read
    cases o with
    | none => cases h
    | some o =>
      obtain ⟨n, counted, eq⟩ := Option.bind_eq_some_iff.mp h
      cases eq
      rw [(slice_eq_some.mp sliced).1]
      exact (at_of_readLe counted).2

end

theorem length_le_encode (s : List Char) : s.length ≤ (Utf8.encode s).length := by
  induction s with
  | nil => exact Nat.le_refl 0
  | cons c s ih =>
    obtain ⟨b, bytes, eq, -⟩ := Utf8.encodeChar_eq_cons c
    rw [Utf8.encode_cons, eq, List.length_cons, List.length_append, List.length_cons]
    omega

section
variable {all : List NativeCollection} {r : Reader} {i : UInt32} {p q : NativeProperty}

theorem readList_lt {inner : Reader} {length : Nat}
    (h : r.readList i = some (some (inner, length))) : length < 2 ^ 32 := by
  cases r with
  | list d t e => simp [Reader.readList] at h
  | object id d c =>
    simp only [Reader.readList] at h
    split at h
    · split at h
      · split at h
        · rename_i read
          cases h
          have := IsarDeserializer.readList_small read
          omega
        · cases h
        · cases h
      · cases h
    · cases h

/-- JSON is read as a string of an object. -/
theorem readString_lt {s : List Char}
    (h : r.readString i = some (some (Utf8.encode s))) : s.length < 2 ^ 32 := by
  have small {d : IsarDeserializer} {offset : Nat}
      (h : d.readString offset = some (some (Utf8.encode s))) : s.length < 2 ^ 32 := by
    have := IsarDeserializer.readString_small h
    have := length_le_encode s
    omega
  unfold Reader.readString at h
  split at h
  · split at h
    · exact small h
    · cases h
  · split at h
    · exact small h
    · cases h
  · cases h

/-- A reader of an object has a property at its place. -/
theorem getProperty_of_place {id : Int64} {d : IsarDeserializer} {c : NativeCollection} {k : Nat}
    {name : String} (few : c.properties.length < 2 ^ 16) (there : c.properties[k]? = some (name, p)) :
    (Reader.object id d c).getProperty (UInt32.ofNat (k + 1)) = some p := by
  obtain ⟨addressed, property⟩ := property_of_getElem? few there
  exact WriterImpl.exact_object c _ p addressed property

end

section
variable {all : List NativeCollection}

mutual

/-- What a reader shows belongs to the property that it has under the index. -/
theorem belongs_of_shows (few : ∀ c ∈ all, c.properties.length < 2 ^ 16) {r : Reader} {i : UInt32}
    {p q : NativeProperty} (found : r.getProperty i = some q) (type : p.dataType = q.dataType)
    (target : p.embeddedCollectionIndex = q.embeddedCollectionIndex) :
    ∀ {v : ReadValue}, Shows all r i p.dataType v → Belongs all p v
  | .null, shows => by
    intro byte
    have null := shows.2
    rw [byte] at null
    exact null
  | .bool value, shows => shows.1
  | .byte value, shows => shows.1
  | .int value, shows => ⟨shows.1, shows.2.1⟩
  | .float value, shows => ⟨shows.1, shows.2.1⟩
  | .long value, shows => ⟨shows.1, shows.2.1⟩
  | .double value, shows => ⟨shows.1, shows.2.1⟩
  | .string value, shows => by
    rcases shows.1 with string | json
    · exact Or.inl string
    · exact Or.inr ⟨json, readString_lt shows.2.2⟩
  | .object idName properties, shows => by
    obtain ⟨object, -, d, c, read, rfl, layout, values⟩ := shows
    obtain ⟨d', c', eq, embedded⟩ := readObject_eq_some found read
    cases eq
    have embedded : p.embedded all = some c := by
      rw [NativeProperty.embedded, target]
      exact embedded
    refine ⟨object, c, embedded, rfl, ?_⟩
    obtain ⟨index, -, there⟩ := Option.bind_eq_some_iff.mp embedded
    exact @belongs_of_showsProperties few _ d c (few c (List.mem_of_getElem? there)) 0 properties
      layout values
  | .list elements, shows => by
    obtain ⟨-, inner, e, element, read, values⟩ := shows
    refine ⟨readList_lt read, e, element, ?_⟩
    obtain ⟨d, t, rfl, element'⟩ := readList_eq_some found read
    rw [← type, element] at element'
    cases element'
    rw [← target] at values
    exact @belongs_of_showsElements few d e { p with dataType := e } rfl 0 elements values

theorem belongs_of_showsProperties (few : ∀ c ∈ all, c.properties.length < 2 ^ 16)
    {id : Int64} {d : IsarDeserializer} {c : NativeCollection}
    (fewC : c.properties.length < 2 ^ 16) {k : Nat} :
    ∀ {properties : List (String × DataType × ReadValue)},
      properties.map (fun p => (p.1, p.2.1)) =
        (c.properties.drop k).map (fun p => (p.1, p.2.dataType)) →
      ShowsProperties all (.object id d c) (k + 1) properties →
      PropertiesBelong all (c.properties.drop k) properties
  | [], layout, _ => List.map_eq_nil_iff.mp layout.symm
  | (name, t, v) :: properties, layout, shows => by
    obtain ⟨⟨name, q⟩, rest, split, head, others⟩ := List.map_eq_cons_iff.mp layout.symm
    cases head
    have there : c.properties[k]? = some (name, q) := by
      have := congrArg (fun l : List (String × NativeProperty) => l[0]?) split
      simpa using this
    have later : c.properties.drop (k + 1) = rest := by
      rw [← List.tail_drop, split]
      rfl
    refine ⟨q, rest, split, rfl, ?_, ?_⟩
    · exact belongs_of_shows few (getProperty_of_place fewC there) rfl rfl shows.1
    · rw [← later]
      rw [← later] at others
      exact belongs_of_showsProperties few fewC others.symm shows.2

theorem belongs_of_showsElements (few : ∀ c ∈ all, c.properties.length < 2 ^ 16)
    {d : IsarDeserializer} {t : DataType} {p : NativeProperty} (type : p.dataType = t) {k : Nat} :
    ∀ {elements : List ReadValue},
      ShowsElements all (.list d t p.embeddedCollectionIndex) k t elements →
      ElementsBelong all p elements
  | [], _ => trivial
  | v :: elements, shows => by
    subst type
    have found : (Reader.list d p.dataType p.embeddedCollectionIndex).getProperty
      (UInt32.ofNat k) = some _ := rfl
    exact ⟨@belongs_of_shows few _ _ p _ found rfl rfl v shows.1,
      belongs_of_showsElements few rfl shows.2⟩

end

end

/-! ## Values that return -/

/-- A document of which a value can be written that then is shown. -/
structure Returns (all : List NativeCollection) (p : NativeProperty) (source : Source)
    (v : ReadValue) : Prop where
  plain : Plain source
  planned : (planned all p source).isSome
  imported : imported all p source = v

section
variable {all : List NativeCollection} {p : NativeProperty} {formats : Formats}
  {number : Numeral → JsonNumber}

theorem planned_flat {source : Source} (object : p.dataType ≠ .object)
    (objects : p.dataType ≠ .objectList) : planned all p source = plannedFlat p.dataType source := by
  cases source <;> simp only [planned, if_neg object, if_neg objects]

theorem imported_flat {source : Source} (object : p.dataType ≠ .object)
    (objects : p.dataType ≠ .objectList) : imported all p source = shownFlat p.dataType source := by
  cases source <;> simp only [imported, if_neg object, if_neg objects]

/-- A value of a type without objects. -/
theorem returns_flat {t : DataType} {source : Source} {v : ReadValue} (type : p.dataType = t)
    (object : t ≠ .object) (objects : t ≠ .objectList) (plain : Plain source)
    (planned : (plannedFlat t source).isSome) (shown : shownFlat t source = v) :
    Returns all p source v := by
  subst type
  exact {
    plain
    planned := by rwa [planned_flat object objects]
    imported := by rwa [imported_flat object objects] }

/-- A null of any type but a byte. -/
theorem returns_null (byte : p.dataType ≠ .byte) : Returns all p .null .null where
  plain := trivial
  planned := by
    show (plannedFlat p.dataType .null).isSome
    cases p.dataType <;> rfl
  imported := by
    show shownFlat p.dataType .null = .null
    cases type : p.dataType <;> first | rfl | exact absurd type byte

/-! ### Numbers -/

theorem asU8_integer (rereads : formats.Rereads number) (v : UInt8) :
    (Source.ofDoc number (.number (JsonText.integer v.toNat))).asU8 = some v := by
  have lt := v.toNat_lt
  rw [Source.ofDoc, rereads.integer _ (by omega) (by omega), Source.asU8,
    if_pos (by omega), Int.toNat_natCast, UInt8.ofNat_toNat]

theorem asI32_integer (rereads : formats.Rereads number) (v : Int32) :
    (Source.ofDoc number (.number (JsonText.integer v.toInt))).asI32 = some v := by
  have le := v.le_toInt
  have lt := v.toInt_lt
  rw [Source.ofDoc, rereads.integer _ (by omega) (by omega), Source.asI32,
    if_pos (by omega), Int32.ofInt_toInt]

theorem asI64_integer (rereads : formats.Rereads number) (v : Int64) :
    (Source.ofDoc number (.number (JsonText.integer v.toInt))).asI64 = some v := by
  have le := v.le_toInt
  have lt := v.toInt_lt
  rw [Source.ofDoc, rereads.integer _ (by omega) (by omega), Source.asI64,
    if_pos (by omega), Int64.ofInt_toInt]

/-- A value of which the read succeeds, and a null, are planned. -/
theorem isSome_plannedScalar {α : Type} {as : Source → Option α} {wrote : α → Written}
    {source : Source} (there : (as source).isSome ∨ source = .null) :
    ((plannedScalar as wrote source).map some).isSome := by
  rw [Option.isSome_map]
  rcases there with there | rfl
  · cases source <;> simp [plannedScalar, there]
  · rfl

theorem shownScalar_eq {α : Type} {as : Source → Option α} {shown : α → ReadValue}
    {missing : ReadValue} {source : Source} {value : α} (read : as source = some value) :
    shownScalar as shown missing source = shown value := by
  rw [shownScalar, read]

theorem docOfF32_cases (v : F32) : (Source.asF32 (.ofDoc number (formats.docOfF32 v))).isSome ∨
    Source.ofDoc number (formats.docOfF32 v) = .null := by
  unfold Formats.docOfF32
  by_cases finite : v.isFinite
  · rw [if_pos finite, Source.ofDoc]
    left
    unfold Source.asF32
    cases number (formats.ryuF32 v) <;> rfl
  · rw [if_neg finite]
    exact Or.inr rfl

theorem docOfF64_cases (v : F64) : (Source.asF64 (.ofDoc number (formats.docOfF64 v))).isSome ∨
    Source.ofDoc number (formats.docOfF64 v) = .null := by
  unfold Formats.docOfF64
  by_cases finite : v.isFinite
  · rw [if_pos finite]
    exact Or.inl rfl
  · rw [if_neg finite]
    exact Or.inr rfl

theorem plain_docOfF32 (v : F32) : Plain (.ofDoc number (formats.docOfF32 v)) := by
  unfold Formats.docOfF32
  split <;> trivial

theorem plain_docOfF64 (v : F64) : Plain (.ofDoc number (formats.docOfF64 v)) := by
  unfold Formats.docOfF64
  split <;> trivial

/-! ### Values without objects -/

/-- A text of a JSON property is parsed for the document, and printed again when it is imported. -/
theorem returns_json (rereads : formats.Rereads number) {value : List Char} (json : p.dataType = .json)
    (small : value.length < 2 ^ 32) :
    Returns all p (.ofDoc number (formats.serializeScalar .json (.string value)))
      (formats.restoredValue number .json (.string value)) := by
  refine returns_flat json (by decide) (by decide) ?_ ?_ ?_
  · simp only [Formats.serializeScalar, ReadValue.readString]
    cases parsed : formats.fromStr value with
    | none => trivial
    | some parsed' => exact rereads.plain value parsed' small parsed
  · show (plannedText (fun source => some source.raw) _).isSome
    cases Source.ofDoc number (formats.serializeScalar .json (.string value)) <;> rfl
  · show _ = formats.restoredJson value
    unfold Formats.restoredJson
    have raw := Source.raw_ofDoc number (formats.serializeScalar .json (.string value))
    cases doc : formats.serializeScalar .json (.string value) with
    | null => rfl
    | _ =>
      rw [doc] at raw
      exact congrArg ReadValue.string raw

/-- A value that is neither an object nor a list. -/
theorem returns_scalar (rereads : formats.Rereads number) {v : ReadValue}
    (belongs : Belongs all p v) (object : ∀ idName properties, v ≠ .object idName properties)
    (list : ∀ elements, v ≠ .list elements) :
    Returns all p (.ofDoc number (formats.serializeScalar p.dataType v))
      (formats.restoredValue number p.dataType v) := by
  cases v with
  | null =>
    have written : formats.serializeScalar p.dataType .null = .null := by
      cases p.dataType <;> rfl
    rw [written]
    exact returns_null belongs
  | bool value =>
    rw [show p.dataType = .bool from belongs]
    exact returns_flat belongs (by decide) (by decide) trivial rfl rfl
  | byte value =>
    rw [show p.dataType = .byte from belongs]
    have read := asU8_integer rereads value
    refine returns_flat belongs (by decide) (by decide) trivial ?_ (shownScalar_eq read)
    exact isSome_plannedScalar (Or.inl (Option.isSome_of_eq_some read))
  | int value =>
    rw [show p.dataType = .int from belongs.1]
    have read := asI32_integer rereads value
    refine returns_flat belongs.1 (by decide) (by decide) trivial ?_ ?_
    · exact isSome_plannedScalar (Or.inl (Option.isSome_of_eq_some read))
    · refine (shownScalar_eq read).trans ?_
      rw [shownInt, if_neg belongs.2]
      rfl
  | float value =>
    rw [show p.dataType = .float from belongs.1]
    refine returns_flat belongs.1 (by decide) (by decide) (plain_docOfF32 value) ?_ rfl
    exact isSome_plannedScalar (docOfF32_cases value)
  | long value =>
    rw [show p.dataType = .long from belongs.1]
    have read := asI64_integer rereads value
    refine returns_flat belongs.1 (by decide) (by decide) trivial ?_ ?_
    · exact isSome_plannedScalar (Or.inl (Option.isSome_of_eq_some read))
    · refine (shownScalar_eq read).trans ?_
      rw [shownLong, if_neg belongs.2]
      rfl
  | double value =>
    rw [show p.dataType = .double from belongs.1]
    refine returns_flat belongs.1 (by decide) (by decide) (plain_docOfF64 value) ?_ rfl
    exact isSome_plannedScalar (docOfF64_cases value)
  | string value =>
    rcases belongs with string | ⟨json, small⟩
    · rw [string]
      exact returns_flat string (by decide) (by decide) trivial rfl rfl
    · rw [json]
      exact returns_json rereads json small
  | object idName properties => exact absurd rfl (object idName properties)
  | list elements => exact absurd rfl (list elements)

/-! ### Lists without objects -/

theorem serializeElements_cons {e : DataType} (flat : e ≠ .object) (v : ReadValue)
    (elements : List ReadValue) : formats.serializeElements e (v :: elements) =
      formats.serializeElement e v :: formats.serializeElements e elements := by
  cases v <;> simp only [Formats.serializeElements, if_neg flat]

theorem length_serializeElements (e : DataType) (elements : List ReadValue) :
    (Source.ofDocs number (formats.serializeElements e elements)).length = elements.length := by
  induction elements with
  | nil => rfl
  | cons v elements ih =>
    cases v <;> simp only [Formats.serializeElements, Source.ofDocs, List.length_cons, ih]

/-- A value of an element is written as that of a property. -/
theorem serializeElement_eq {e : DataType} {v : ReadValue}
    (belongs : Belongs all { p with dataType := e } v)
    (json : e ≠ .json) (list : e.elementType = none) :
    formats.serializeElement e v = formats.serializeScalar e v := by
  cases v with
  | null =>
    have byte : e ≠ .byte := belongs
    cases e <;> first | rfl | exact absurd rfl byte
  | bool value =>
    rw [show e = .bool from belongs]
    rfl
  | byte value =>
    rw [show e = .byte from belongs]
    rfl
  | int value =>
    rw [show e = .int from belongs.1]
    exact if_neg belongs.2
  | float value =>
    rw [show e = .float from belongs.1]
    exact if_neg (by simp [ReadValue.readFloat, belongs.2])
  | long value =>
    rw [show e = .long from belongs.1]
    exact if_neg belongs.2
  | double value =>
    rw [show e = .double from belongs.1]
    exact if_neg (by simp [ReadValue.readDouble, belongs.2])
  | string value =>
    rw [show e = .string from belongs.resolve_right fun other => json other.1]
    rfl
  | object idName properties =>
    rw [show e = .object from belongs.1]
    rfl
  | list elements =>
    obtain ⟨-, e', some_, -⟩ := belongs
    rw [list] at some_
    cases some_

section
variable {α : Type} {as : Source → Option α} {wrote : α → Written} {shown : α → ReadValue}
  {missing : ReadValue} {e : DataType}

theorem plainElements_flat (rereads : formats.Rereads number) (flat : e ≠ .object) (json : e ≠ .json)
    (list : e.elementType = none)
    (planned : ∀ source, (plannedFlat e source).isSome → (plannedScalar as wrote source).isSome)
    (shows : ∀ source, shownFlat e source = shownScalar as shown missing source)
    {elements : List ReadValue} (belong : ElementsBelong all { p with dataType := e } elements) :
    PlainElements (Source.ofDocs number (formats.serializeElements e elements)) ∧
      ((Source.ofDocs number (formats.serializeElements e elements)).mapM
        (plannedScalar as wrote)).isSome ∧
      (Source.ofDocs number (formats.serializeElements e elements)).map
        (shownScalar as shown missing) = formats.restoredElements number e elements := by
  have objects : e ≠ .objectList := by
    rintro rfl
    cases list
  induction elements with
  | nil => exact ⟨trivial, rfl, rfl⟩
  | cons v elements ih =>
    obtain ⟨own, belong⟩ := belong
    obtain ⟨others, rest, same⟩ := ih belong
    have returns : Returns all { p with dataType := e } (.ofDoc number (formats.serializeScalar e v))
        (formats.restoredValue number e v) := by
      refine returns_scalar rereads own ?_ ?_
      · rintro idName properties rfl
        exact flat own.1
      · rintro elements rfl
        obtain ⟨-, e', some_, -⟩ := own
        rw [list] at some_
        cases some_
    have plan := returns.planned
    have same' := returns.imported
    rw [planned_flat (p := { p with dataType := e }) flat objects] at plan
    rw [imported_flat (p := { p with dataType := e }) flat objects, shows] at same'
    obtain ⟨value, first⟩ := Option.isSome_iff_exists.mp (planned _ plan)
    obtain ⟨values, later⟩ := Option.isSome_iff_exists.mp rest
    rw [serializeElements_cons flat, serializeElement_eq own json list, Source.ofDocs,
      Formats.restoredElements]
    refine ⟨⟨returns.plain, others⟩, ?_, ?_⟩
    · rw [List.mapM_cons, first, Option.bind_eq_bind, Option.bind_some, later]
      rfl
    · rw [List.map_cons, same', same]

/-- A list of values of one type. -/
theorem returns_elements (rereads : formats.Rereads number) {t : DataType} (type : p.dataType = t)
    (elementType : t.elementType = some e) (flat : e ≠ .object) (json : e ≠ .json)
    (list : e.elementType = none)
    (planned : ∀ source, plannedFlat t source = plannedList as wrote source)
    (shows : ∀ source, shownFlat t source = shownElements as shown missing source)
    (planned' : ∀ source, (plannedFlat e source).isSome → (plannedScalar as wrote source).isSome)
    (shows' : ∀ source, shownFlat e source = shownScalar as shown missing source)
    {elements : List ReadValue} (belongs : Belongs all p (.list elements)) :
    Returns all p (.ofDoc number (formats.serializeValue t (.list elements)))
      (formats.restoredValue number t (.list elements)) := by
  subst type
  obtain ⟨small, e', elementType', belong⟩ := belongs
  cases elementType.symm.trans elementType'
  obtain ⟨plain, values, same⟩ := plainElements_flat rereads flat json list planned' shows' belong
  have object : p.dataType ≠ .object := by
    intro type
    rw [type] at elementType
    cases elementType
  have objects : p.dataType ≠ .objectList := by
    intro type
    rw [type] at elementType
    cases elementType
    exact flat rfl
  rw [Formats.serializeValue, Formats.restoredValue, elementType]
  refine returns_flat rfl object objects ⟨?_, plain⟩ ?_ ?_
  · rw [length_serializeElements]
    exact small
  · rw [planned]
    show (Option.map _ (List.mapM _ _)).isSome
    rw [Option.isSome_map]
    exact values
  · rw [shows]
    exact congrArg ReadValue.list same

end

/-- A list of values that are no objects. -/
theorem returns_flatList (rereads : formats.Rereads number) (objects : p.dataType ≠ .objectList)
    {elements : List ReadValue} (belongs : Belongs all p (.list elements)) :
    Returns all p (.ofDoc number (formats.serializeValue p.dataType (.list elements)))
      (formats.restoredValue number p.dataType (.list elements)) := by
  have scalar {α : Type} {as : Source → Option α} {wrote : α → Written} {source : Source}
      (there : ((plannedScalar as wrote source).map some).isSome) :
      (plannedScalar as wrote source).isSome := by
    rwa [Option.isSome_map] at there
  obtain ⟨-, e, elementType, -⟩ := id belongs
  cases type : p.dataType <;> rw [type] at elementType <;> cases elementType
  case objectList => exact absurd type objects
  case stringList =>
    refine returns_elements rereads type rfl (by decide) (by decide) rfl (fun _ => rfl) (fun _ => rfl)
      (fun source there => ?_) (fun _ => rfl) belongs
    cases source <;> first | rfl | cases there
  all_goals
    exact returns_elements rereads type rfl (by decide) (by decide) rfl (fun _ => rfl) (fun _ => rfl)
      (fun _ there => scalar there) (fun _ => rfl) belongs

end

/-! ### Objects -/

section
variable {all : List NativeCollection} {c : NativeCollection} {formats : Formats}
  {number : Numeral → JsonNumber}

/-- The values of all properties from an index on. -/
def placed (k : Nat) (properties : List (String × DataType × ReadValue)) :
    List (UInt32 × ReadValue) :=
  (properties.zipIdx k).map fun e => (UInt32.ofNat (e.2 + 1), e.1.2.2)

theorem lookup_placed {properties : List (String × DataType × ReadValue)} {k j : Nat}
    (bound : k + properties.length < 2 ^ 16) (le : k ≤ j) (small : j < 2 ^ 16) :
    (placed k properties).lookup (UInt32.ofNat (j + 1)) =
      (properties[j - k]?).map fun e => e.2.2 := by
  induction properties generalizing k with
  | nil => rfl
  | cons e properties ih =>
    rw [List.length_cons] at bound
    have split : placed k (e :: properties) =
        (UInt32.ofNat (k + 1), e.2.2) :: placed (k + 1) properties := rfl
    rw [split, List.lookup_cons]
    by_cases same : j = k
    · subst same
      rw [beq_self_eq_true, Nat.sub_self]
      rfl
    · have differ : UInt32.ofNat (j + 1) ≠ UInt32.ofNat (k + 1) := by
        intro eq
        have eq := congrArg UInt32.toNat eq
        rw [UInt32.toNat_ofNat_of_lt' (show j + 1 < 2 ^ 32 by omega),
          UInt32.toNat_ofNat_of_lt' (show k + 1 < 2 ^ 32 by omega)] at eq
        omega
      rw [beq_false_of_ne differ, ih (by omega) (by omega)]
      have shift : j - k = (j - (k + 1)) + 1 := by omega
      rw [shift, List.getElem?_cons_succ]

/-- Values of all properties are arranged as they are. -/
theorem arranged_placed (few : c.properties.length < 2 ^ 16)
    {properties : List (String × DataType × ReadValue)}
    (layout : properties.map (fun p => (p.1, p.2.1)) =
      c.properties.map (fun p => (p.1, p.2.dataType))) :
    c.arranged (placed 0 properties) = properties := by
  have lengths := congrArg List.length layout
  rw [List.length_map, List.length_map] at lengths
  refine List.ext_getElem ?_ fun j lt lt' => ?_
  · rw [NativeCollection.arranged, List.length_map, List.length_zipIdx, lengths]
  · have same := congrArg (fun l : List (String × DataType) => l[j]?) layout
    have below : j < c.properties.length := lengths ▸ lt'
    simp only [List.getElem?_map, List.getElem?_eq_getElem lt', List.getElem?_eq_getElem below,
      Option.map_some, Option.some.injEq, Prod.mk.injEq] at same
    simp only [NativeCollection.arranged, List.getElem_map, List.getElem_zipIdx, Nat.zero_add]
    rw [lookup_placed (by omega) (Nat.zero_le j) (by omega), Nat.sub_zero,
      List.getElem?_eq_getElem lt', Option.map_some, Option.getD_some, ← same.1, ← same.2]

/-- The property at a place is found under its name. -/
theorem named_of_place (distinct : (c.properties.map Prod.fst).Nodup) {k : Nat} {name : String}
    {p : NativeProperty} (there : c.properties[k]? = some (name, p)) :
    c.named name = some (UInt32.ofNat (k + 1), p) := by
  have mem : ((name, p), k) ∈ c.properties.zipIdx := List.mem_zipIdx_iff_getElem?.mpr there
  obtain ⟨e, found⟩ : ∃ e, (c.properties.zipIdx.find? fun p => p.1.1 == name) = some e := by
    refine Option.isSome_iff_exists.mp (List.find?_isSome.mpr ⟨_, mem, ?_⟩)
    exact beq_self_eq_true name
  have there' := getElem?_of_find? found
  obtain ⟨lt, at_⟩ := List.getElem?_eq_some_iff.mp there
  obtain ⟨lt', at_'⟩ := List.getElem?_eq_some_iff.mp there'
  have place : e.2 = k := by
    have within : e.2 < (c.properties.map Prod.fst).length := by rwa [List.length_map]
    have within' : k < (c.properties.map Prod.fst).length := by rwa [List.length_map]
    have same : (c.properties.map Prod.fst)[e.2] = (c.properties.map Prod.fst)[k] := by
      rw [List.getElem_map, List.getElem_map, at_, at_']
    exact (List.Nodup.getElem_inj_iff distinct).mp same
  rw [NativeCollection.named, found]
  rw [place, there] at there'
  cases there'
  rw [Option.map_some, place]

theorem named_eq_none {name : String} (absent : name ∉ c.properties.map Prod.fst) :
    c.named name = none := by
  rw [NativeCollection.named, Option.map_eq_none_iff, List.find?_eq_none]
  rintro ⟨⟨other, p⟩, k⟩ mem same
  obtain rfl : other = name := beq_iff_eq.mp same
  exact absent (List.mem_map.mpr ⟨_, List.mem_of_getElem? (List.mem_zipIdx_iff_getElem?.mp mem), rfl⟩)

theorem ofEntries_append (entries entries' : List (List Char × Doc)) :
    Source.ofEntries number (entries ++ entries') =
      Source.ofEntries number entries ++ Source.ofEntries number entries' := by
  induction entries with
  | nil => rfl
  | cons entry entries ih =>
    obtain ⟨key, value⟩ := entry
    rw [List.cons_append, Source.ofEntries, ih]
    rfl

theorem ofDocs_eq_map (docs : List Doc) :
    Source.ofDocs number docs = docs.map (Source.ofDoc number) := by
  induction docs with
  | nil => rfl
  | cons doc docs ih => rw [Source.ofDocs, ih, List.map_cons]

theorem keys_serializeProperties (properties : List (String × DataType × ReadValue)) :
    (Source.ofEntries number (formats.serializeProperties properties)).map Prod.fst =
      properties.map Prod.fst := by
  induction properties with
  | nil => rfl
  | cons e properties ih =>
    obtain ⟨name, t, v⟩ := e
    rw [Formats.serializeProperties, Source.ofEntries, List.map_cons, ih, String.ofList_toList]
    rfl

theorem layout_restoredProperties (properties : List (String × DataType × ReadValue)) :
    (formats.restoredProperties number properties).map (fun p => (p.1, p.2.1)) =
      properties.map (fun p => (p.1, p.2.1)) := by
  induction properties with
  | nil => rfl
  | cons e properties ih =>
    obtain ⟨name, t, v⟩ := e
    rw [Formats.restoredProperties, List.map_cons, ih]
    rfl

theorem layout_of_belong {own : List (String × NativeProperty)}
    {properties : List (String × DataType × ReadValue)}
    (belong : PropertiesBelong all own properties) :
    properties.map (fun p => (p.1, p.2.1)) = own.map (fun p => (p.1, p.2.dataType)) := by
  induction properties generalizing own with
  | nil =>
    obtain rfl : own = [] := belong
    rfl
  | cons e properties ih =>
    obtain ⟨name, t, v⟩ := e
    obtain ⟨p, rest, rfl, rfl, -, belong⟩ := belong
    rw [List.map_cons, ih belong]
    rfl

theorem names_of_layout {own : List (String × NativeProperty)}
    {properties : List (String × DataType × ReadValue)}
    (layout : properties.map (fun p => (p.1, p.2.1)) = own.map (fun p => (p.1, p.2.dataType))) :
    properties.map Prod.fst = own.map Prod.fst := by
  have names := congrArg (List.map Prod.fst) layout
  rwa [List.map_map, List.map_map] at names

/-- Entries of which nothing is written. -/
structure Ignored (all : List NativeCollection) (c : NativeCollection)
    (entries : List (String × Source)) : Prop where
  plain : PlainEntries entries
  planned : plannedMap all c entries = some []
  imported : importedEntries all c entries = []
  keys : (c.properties.map Prod.fst ++ entries.map Prod.fst).Nodup

/-- The entry of an id is none of the properties. -/
theorem ignored_idEntry (distinct : (c.properties.map Prod.fst).Nodup) (idName : Option String)
    (id : Int64) : Ignored all c
      (Source.ofEntries number (Formats.idEntry idName id (c.properties.map Prod.fst))) := by
  have nothing : Ignored all c [] := by
    refine ⟨trivial, rfl, rfl, ?_⟩
    rwa [List.map_nil, List.append_nil]
  cases idName with
  | none => exact nothing
  | some name =>
    rw [Formats.idEntry]
    by_cases listed : (c.properties.map Prod.fst).contains name = true
    · rw [if_pos listed]
      exact nothing
    · rw [if_neg listed]
      have absent : name ∉ c.properties.map Prod.fst := fun mem =>
        listed (List.contains_iff_mem.mpr mem)
      have key : String.ofList name.toList = name := String.ofList_toList
      have unnamed := named_eq_none absent
      simp only [Source.ofEntries, key]
      refine ⟨⟨trivial, trivial⟩, ?_, ?_, ?_⟩
      · rw [plannedMap, unnamed]
        rfl
      · rw [importedEntries, unnamed]
        rfl
      · refine List.nodup_append.mpr ⟨distinct, List.nodup_singleton _, fun a memA b memB same => ?_⟩
        obtain rfl : b = name := List.mem_singleton.mp memB
        exact absent (same ▸ memA)

/-- The document of an object whose properties return. -/
theorem returns_object {p : NativeProperty} {raw : List Char} {idName : Option String}
    {properties : List (String × DataType × ReadValue)} {id : Int64}
    (few : c.properties.length < 2 ^ 16) (distinct : (c.properties.map Prod.fst).Nodup)
    (type : p.dataType = .object) (target : p.embedded all = some c) (name : idName = c.idName)
    (belong : PropertiesBelong all c.properties properties)
    (returns : ∀ rest, Ignored all c (Source.ofEntries number rest) →
      PlainEntries (Source.ofEntries number (formats.serializeProperties properties ++ rest)) ∧
      (plannedMap all c
        (Source.ofEntries number (formats.serializeProperties properties ++ rest))).isSome ∧
      importedEntries all c
        (Source.ofEntries number (formats.serializeProperties properties ++ rest)) =
          placed 0 (formats.restoredProperties number properties)) :
    Returns all p
      (.object raw (Source.ofEntries number (formats.serializeProperties properties ++
        Formats.idEntry idName id (properties.map Prod.fst))))
      (.object idName (formats.restoredProperties number properties)) := by
  subst name
  have layout := layout_of_belong belong
  have names := names_of_layout layout
  have ignored := @ignored_idEntry all c number distinct c.idName id
  rw [← names] at ignored
  obtain ⟨plain, plan, shows⟩ := returns _ ignored
  refine ⟨⟨?_, plain⟩, ?_, ?_⟩
  · rw [ofEntries_append, List.map_append, keys_serializeProperties, names, ← names]
    have keys := ignored.keys
    rwa [← names] at keys
  · rw [planned, if_pos type, target]
    rwa [Option.isSome_map]
  · have arranged := arranged_placed few
      ((@layout_restoredProperties formats number properties).trans layout)
    rw [imported, if_pos type, target]
    show ReadValue.object c.idName (c.arranged (importedEntries all c _)) = _
    rw [shows, arranged]

/-- An element that is an object. -/
theorem returns_objects_cons {p : NativeProperty} {raw : List Char}
    {entries : List (String × Source)} {elements : List Source} {v : ReadValue} {k : Nat}
    (returns : Returns all { p with dataType := .object } (.object raw entries) v)
    (plan : (plannedObjects all p (k + 1) elements).isSome) :
    (plannedObjects all p k (.object raw entries :: elements)).isSome ∧
      importedObjects all p (.object raw entries :: elements) =
        v :: importedObjects all p elements := by
  have first := returns.planned
  have shows := returns.imported
  have same : NativeProperty.embedded all { p with dataType := .object } = p.embedded all := rfl
  rw [planned, if_pos rfl, same] at first
  rw [imported, if_pos rfl, same] at shows
  rw [plannedObjects, importedObjects]
  cases target : p.embedded all with
  | none =>
    rw [target] at first
    cases first
  | some c =>
    rw [target] at first shows
    obtain ⟨writes, eq⟩ := Option.isSome_iff_exists.mp first
    obtain ⟨object, done, -⟩ := Option.map_eq_some_iff.mp eq
    obtain ⟨others, rest⟩ := Option.isSome_iff_exists.mp plan
    refine ⟨?_, ?_⟩
    · simp only [done, rest, Option.bind_eq_bind, Option.bind_some]
      rfl
    · rw [← shows]

end

section
variable {all : List NativeCollection} {formats : Formats} {number : Numeral → JsonNumber}

mutual

/-- What is exported of a value is imported as what it becomes. -/
theorem returns_value (few : ∀ c ∈ all, c.properties.length < 2 ^ 16)
    (distinct : ∀ c ∈ all, (c.properties.map Prod.fst).Nodup) (rereads : formats.Rereads number)
    {p : NativeProperty} : ∀ {v : ReadValue}, Belongs all p v →
    Returns all p (.ofDoc number (formats.serializeValue p.dataType v))
      (formats.restoredValue number p.dataType v)
  | .object idName properties, belongs => by
    obtain ⟨type, c, target, name, belong⟩ := belongs
    obtain ⟨index, -, there⟩ := Option.bind_eq_some_iff.mp target
    have mem := List.mem_of_getElem? there
    rw [Formats.serializeValue, if_pos type, Formats.restoredValue, Source.ofDoc]
    refine returns_object (few c mem) (distinct c mem) type target name belong fun rest ignored => ?_
    exact returns_properties few distinct rereads mem 0 ignored belong
  | .list elements, belongs => by
    by_cases objects : p.dataType = .objectList
    · obtain ⟨small, e, elementType, belong⟩ := belongs
      rw [objects] at elementType
      cases elementType
      obtain ⟨plain, plan, shows⟩ := returns_objects few distinct rereads (p := p) 0 belong
      rw [objects, Formats.serializeValue, Formats.restoredValue]
      refine ⟨⟨?_, plain⟩, ?_, ?_⟩
      · rw [length_serializeElements]
        exact small
      · show (planned all p (.array _ _)).isSome
        rw [planned, if_pos objects, Option.isSome_map]
        exact plan
      · show imported all p (.array _ _) = _
        rw [imported, if_pos objects, shows]
        rfl
    · exact returns_flatList rereads objects belongs
  | .null, belongs => returns_scalar rereads belongs (by simp) (by simp)
  | .bool _, belongs => returns_scalar rereads belongs (by simp) (by simp)
  | .byte _, belongs => returns_scalar rereads belongs (by simp) (by simp)
  | .int _, belongs => returns_scalar rereads belongs (by simp) (by simp)
  | .float _, belongs => returns_scalar rereads belongs (by simp) (by simp)
  | .long _, belongs => returns_scalar rereads belongs (by simp) (by simp)
  | .double _, belongs => returns_scalar rereads belongs (by simp) (by simp)
  | .string _, belongs => returns_scalar rereads belongs (by simp) (by simp)

theorem returns_properties (few : ∀ c ∈ all, c.properties.length < 2 ^ 16)
    (distinct : ∀ c ∈ all, (c.properties.map Prod.fst).Nodup) (rereads : formats.Rereads number)
    {c : NativeCollection} (mem : c ∈ all) (k : Nat)
    {rest : List (List Char × Doc)} (ignored : Ignored all c (Source.ofEntries number rest)) :
    ∀ {properties : List (String × DataType × ReadValue)},
      PropertiesBelong all (c.properties.drop k) properties →
      PlainEntries (Source.ofEntries number (formats.serializeProperties properties ++ rest)) ∧
      (plannedMap all c
        (Source.ofEntries number (formats.serializeProperties properties ++ rest))).isSome ∧
      importedEntries all c
        (Source.ofEntries number (formats.serializeProperties properties ++ rest)) =
          placed k (formats.restoredProperties number properties)
  | [], _ => by
    refine ⟨ignored.plain, ?_, ignored.imported⟩
    have planned := ignored.planned
    exact Option.isSome_of_eq_some planned
  | (name, t, v) :: properties, belong => by
    obtain ⟨p, others, split, rfl, own, belong⟩ := belong
    have there : c.properties[k]? = some (name, p) := by
      have := congrArg (fun l : List (String × NativeProperty) => l[0]?) split
      simpa using this
    have later : c.properties.drop (k + 1) = others := by
      rw [← List.tail_drop, split]
      rfl
    rw [← later] at belong
    obtain ⟨plain, plan, shows⟩ := returns_value few distinct rereads own
    obtain ⟨plain', plan', shows'⟩ :=
      returns_properties few distinct rereads mem (k + 1) ignored belong
    have key : String.ofList name.toList = name := String.ofList_toList
    have named := named_of_place (distinct c mem) there
    obtain ⟨value, first⟩ := Option.isSome_iff_exists.mp plan
    obtain ⟨writes, second⟩ := Option.isSome_iff_exists.mp plan'
    rw [Formats.serializeProperties, List.cons_append, Source.ofEntries, key]
    refine ⟨⟨plain, plain'⟩, ?_, ?_⟩
    · simp only [plannedMap, named, first, second, Option.bind_eq_bind, Option.bind_some]
      rfl
    · simp only [importedEntries, named, shows, shows']
      rfl

theorem returns_objects (few : ∀ c ∈ all, c.properties.length < 2 ^ 16)
    (distinct : ∀ c ∈ all, (c.properties.map Prod.fst).Nodup) (rereads : formats.Rereads number)
    {p : NativeProperty} (k : Nat) : ∀ {elements : List ReadValue},
    ElementsBelong all { p with dataType := .object } elements →
      PlainElements (Source.ofDocs number (formats.serializeElements .object elements)) ∧
      (plannedObjects all p k
        (Source.ofDocs number (formats.serializeElements .object elements))).isSome ∧
      importedObjects all p (Source.ofDocs number (formats.serializeElements .object elements)) =
        formats.restoredElements number .object elements
  | [], _ => ⟨trivial, rfl, rfl⟩
  | .null :: elements, belong => by
    obtain ⟨plain, plan, shows⟩ := returns_objects few distinct rereads (p := p) (k + 1) belong.2
    obtain ⟨writes, second⟩ := Option.isSome_iff_exists.mp plan
    refine ⟨⟨trivial, plain⟩, ?_, ?_⟩
    · show ((plannedObjects all p (k + 1) _).map _).isSome
      rw [second]
      rfl
    · show ReadValue.null :: importedObjects all p _ = _
      rw [shows]
      rfl
  | .object idName properties :: elements, belong => by
    obtain ⟨plain, plan, shows⟩ := returns_objects few distinct rereads (p := p) (k + 1) belong.2
    have returns := returns_value few distinct rereads belong.1
    obtain ⟨planned, same⟩ := returns_objects_cons (k := k) returns plan
    refine ⟨⟨returns.plain, plain⟩, planned, ?_⟩
    exact same.trans (by rw [shows]; rfl)
  | .bool _ :: _, belong | .byte _ :: _, belong => by
    cases belong.1
  | .int _ :: _, belong | .float _ :: _, belong | .long _ :: _, belong
  | .double _ :: _, belong => by
    cases belong.1.1
  | .string _ :: _, belong => by
    rcases belong.1 with string | ⟨json, -⟩
    · cases string
    · cases json
  | .list _ :: _, belong => by
    obtain ⟨-, e, none, -⟩ := belong.1
    cases none

end

end

/-! ## Ids -/

section
variable {all : List NativeCollection} {c : NativeCollection} {formats : Formats}
  {number : Numeral → JsonNumber} {strToId : List Char → Int64}

/-- The id behind a property of this name. -/
def idOfProperty (strToId : List Char → Int64) (id : Option Int64) :
    Option (DataType × ReadValue) → Option Int64
  | some (t, v) =>
    if t = .string then
      match v.readString with
      | some s => some (strToId s)
      | none => id
    else id
  | none => id

/-- A string is exported as one. -/
theorem asStr_serializeValue {p : NativeProperty} {v : ReadValue} (belongs : Belongs all p v)
    (type : p.dataType = .string) :
    (Source.ofDoc number (formats.serializeValue .string v)).asStr = v.readString := by
  cases v with
  | null => rfl
  | string s => rfl
  | list elements =>
    obtain ⟨-, e, none, -⟩ := belongs
    rw [type] at none
    cases none
  | _ => simp [Belongs, type] at belongs

theorem sourceId_properties (distinct : (c.properties.map Prod.fst).Nodup) {name : String}
    {rest : List (String × Source)} {properties : List (String × DataType × ReadValue)} {k : Nat}
    {id : Option Int64} (belong : PropertiesBelong all (c.properties.drop k) properties) :
    c.sourceId strToId (some name) id
        (Source.ofEntries number (formats.serializeProperties properties) ++ rest) =
      c.sourceId strToId (some name) (idOfProperty strToId id (properties.lookup name)) rest := by
  induction properties generalizing k id with
  | nil => rfl
  | cons e properties ih =>
    obtain ⟨key, t, v⟩ := e
    obtain ⟨p, others, split, rfl, own, belong⟩ := belong
    have there : c.properties[k]? = some (key, p) := by
      have := congrArg (fun l : List (String × NativeProperty) => l[0]?) split
      simpa using this
    have later : c.properties.drop (k + 1) = others := by
      rw [← List.tail_drop, split]
      rfl
    have fresh : key ∉ properties.map Prod.fst := by
      have keys := distinct.sublist ((List.drop_sublist k c.properties).map Prod.fst)
      rw [split, List.map_cons] at keys
      rw [names_of_layout (layout_of_belong belong)]
      exact (List.nodup_cons.mp keys).1
    rw [← later] at belong
    have eq : String.ofList key.toList = key := String.ofList_toList
    rw [Formats.serializeProperties, Source.ofEntries, eq, List.cons_append,
      NativeCollection.sourceId, named_of_place distinct there, List.lookup_cons]
    by_cases same : name = key
    · subst same
      have alone : properties.lookup name = none := by
        refine List.lookup_eq_none_iff.mpr fun e mem => ?_
        simp only [bne_iff_ne, ne_eq]
        exact fun same => fresh (List.mem_map.mpr ⟨e, mem, same.symm⟩)
      rw [beq_self_eq_true]
      simp only [idOfProperty]
      by_cases string : p.dataType = .string
      · rw [if_pos string, if_pos ⟨string, trivial⟩, string, asStr_serializeValue own string]
        cases v.readString with
        | some s => exact (ih belong).trans (by rw [alone]; rfl)
        | none => exact (ih belong).trans (by rw [alone]; rfl)
      · rw [if_neg string, if_neg fun both => string both.1]
        exact (ih belong).trans (by rw [alone]; rfl)
    · rw [beq_false_of_ne same]
      have other : ¬ (p.dataType = .string ∧ some name = some key) := fun both =>
        same (Option.some.inj both.2)
      simp only [if_neg other]
      exact ih belong

/-- The id of an exported object is found. -/
theorem sourceId_serialize (distinct : (c.properties.map Prod.fst).Nodup)
    (rereads : formats.Rereads number) {reader : IsarReader} (idName : reader.idName = c.idName)
    (belong : PropertiesBelong all c.properties reader.properties) :
    c.sourceId strToId c.idName none (Source.ofEntries number
        (formats.serializeProperties reader.properties ++
          Formats.idEntry reader.idName reader.id (reader.properties.map Prod.fst))) =
      some (reader.importedId strToId) := by
  rw [IsarReader.importedId, ← idName]
  cases reader.idName with
  | none => exact sourceId_none none _
  | some name =>
    have own : PropertiesBelong all (c.properties.drop 0) reader.properties := belong
    rw [ofEntries_append, sourceId_properties distinct own]
    simp only [Formats.idEntry]
    cases found : reader.properties.lookup name with
    | some e =>
      obtain ⟨t, v⟩ := e
      have listed : (reader.properties.map Prod.fst).contains name = true := by
        obtain ⟨before, after, eq, -⟩ := List.lookup_eq_some_iff.mp found
        rw [eq]
        simp
      rw [if_pos listed]
      simp only [idOfProperty]
      by_cases string : t = .string
      · rw [if_pos string, if_pos string]
        cases v.readString <;> rfl
      · rw [if_neg string, if_neg string]
        rfl
    | none =>
      have absent : name ∉ reader.properties.map Prod.fst := by
        intro mem
        obtain ⟨e, listed, rfl⟩ := List.mem_map.mp mem
        simpa using List.lookup_eq_none_iff.mp found e listed
      rw [if_neg fun listed => absent (List.contains_iff_mem.mp listed)]
      have key : String.ofList name.toList = name := String.ofList_toList
      rw [names_of_layout (layout_of_belong belong)] at absent
      rw [Source.ofEntries, key, NativeCollection.sourceId, named_eq_none absent]
      simp only [asI64_integer rereads, if_true]
      rfl

end

/-! ## Exports of opened databases -/

section
variable {xxh3_64 : Bytes → UInt64} {d : Database} {events : List Event} {c : NativeCollection}
  {formats : Formats} {number : Numeral → JsonNumber} {strToId : List Char → Int64}

/-- An exported document is the one of an object. -/
theorem ofDoc_serialize (reader : IsarReader) :
    ∃ raw, Source.ofDoc number (formats.serialize reader) = .object raw (Source.ofEntries number
      (formats.serializeProperties reader.properties ++
        Formats.idEntry reader.idName reader.id (reader.properties.map Prod.fst))) :=
  ⟨_, rfl⟩

/-- What an object shows belongs to the properties of its collection. -/
theorem belong_of_shows {all : List NativeCollection} (few : ∀ c ∈ all, c.properties.length < 2 ^ 16)
    (mem : c ∈ all) {id : Int64} {object : Bytes} {reader : IsarReader}
    (shows : c.Shows all id object reader) : PropertiesBelong all c.properties reader.properties := by
  obtain ⟨-, -, layout, r, opened, values⟩ := shows
  obtain ⟨d, -, rfl⟩ := Option.map_eq_some_iff.mp opened
  exact @belongs_of_showsProperties all few id d c (few c mem) 0 reader.properties layout values

/-- An exported document as a document of the collection. -/
structure ExportReturns (all : List NativeCollection) (c : NativeCollection)
    (strToId : List Char → Int64) (reader : IsarReader) (restored : Int64 → IsarReader)
    (source : Source) : Prop where
  plain : Plain source
  entries : ∃ raw entries writes, source = .object raw entries ∧
    plannedMap all c entries = some writes ∧
    c.sourceId strToId c.idName none entries = some (reader.importedId strToId) ∧
    ∀ id, c.importedReader all id entries = restored id

theorem exportReturns_of_shows {all : List NativeCollection}
    (few : ∀ c ∈ all, c.properties.length < 2 ^ 16)
    (distinct : ∀ c ∈ all, (c.properties.map Prod.fst).Nodup) (rereads : formats.Rereads number)
    (mem : c ∈ all) {id : Int64} {object : Bytes} {reader : IsarReader}
    (shows : c.Shows all id object reader) :
    ExportReturns all c strToId reader (formats.restoredReader number reader)
      (.ofDoc number (formats.serialize reader)) := by
  have belong := belong_of_shows few mem shows
  have layout := layout_of_belong belong
  have names := names_of_layout layout
  have ignored := @ignored_idEntry all c number (distinct c mem) reader.idName reader.id
  have keys := ignored.keys
  rw [← names] at ignored
  have own : PropertiesBelong all (c.properties.drop 0) reader.properties := belong
  obtain ⟨plain, plan, same⟩ := returns_properties few distinct rereads mem 0 ignored own
  obtain ⟨raw, eq⟩ := @ofDoc_serialize formats number reader
  obtain ⟨writes, planned⟩ := Option.isSome_iff_exists.mp plan
  rw [eq]
  refine ⟨⟨?_, plain⟩, raw, _, writes, rfl, planned,
    sourceId_serialize (distinct c mem) rereads shows.1 belong, fun id => ?_⟩
  · rw [ofEntries_append, List.map_append, keys_serializeProperties, names]
    exact keys
  · rw [NativeCollection.importedReader, same,
      arranged_placed (few c mem) ((layout_restoredProperties reader.properties).trans layout),
      ← shows.1]
    rfl

theorem plain_exported {all : List NativeCollection} {readers : List IsarReader}
    (returns : ∀ reader ∈ readers, ExportReturns all c strToId reader
      (formats.restoredReader number reader) (.ofDoc number (formats.serialize reader))) :
    PlainElements (Source.ofDocs number (readers.map formats.serialize)) := by
  induction readers with
  | nil => trivial
  | cons reader readers ih =>
    exact ⟨(returns reader List.mem_cons_self).plain,
      ih fun reader mem => returns reader (List.mem_cons_of_mem _ mem)⟩

/-- An exported object that is written is restored. -/
theorem ExportReturns.restoredAs {all : List NativeCollection} {reader : IsarReader}
    {saved : Int64 × Bytes} (few : ∀ c ∈ all, c.properties.length < 2 ^ 16) (mem : c ∈ all)
    (laid : ∀ c ∈ all, c.Laid)
    (returns : ExportReturns all c strToId reader (formats.restoredReader number reader)
      (.ofDoc number (formats.serialize reader)))
    (written : c.WrittenAs all strToId (.ofDoc number (formats.serialize reader)) saved) :
    c.RestoredAs all formats number strToId reader saved := by
  obtain ⟨raw, entries, writes, eq, -, found, same⟩ := returns.entries
  have shows := (written.imported few mem laid returns.plain).shows raw entries eq
  rw [same] at shows
  refine ⟨?_, written, shows⟩
  obtain ⟨raw', entries', _, _, eq', -, found', -, -⟩ := written
  rw [eq] at eq'
  cases eq'
  exact Option.some.inj (found.symm.trans found')

/-- No value of an exported object is refused when it is imported into its collection of an opened
database. The import succeeds exactly when the objects have ids, can be written, and the saves
succeed; what is saved then shows what was exported, with floats and JSON as they are read back. -/
theorem export_import {messages : JsonMessages} {txn txn' : NativeTxn} {counters : String → Int64}
    {operations : List Operation} {readers : List IsarReader} {n : UInt32}
    (run : Run (fun d event d' => Database.Step xxh3_64 d event d' ∧ d.Plain event) Database.new
      events d) (few : ∀ c ∈ d.collections, c.properties.length < 2 ^ 16)
    (fewC : d.collections.length ≤ 2 ^ 16) (opened : c ∈ d.collections)
    (began : c.run xxh3_64 (d.storage.beginTxn counters) operations = .ok txn)
    (rereads : formats.Rereads number)
    (shown : ∀ reader ∈ readers, ∃ object, c.Shows d.collections reader.id object reader) :
    (∀ reader ∈ readers, ∃ raw entries writes,
      Source.ofDoc number (formats.serialize reader) = .object raw entries ∧
      plannedMap d.collections c entries = some writes) ∧
    (Inserts.importJson messages strToId (c.inserts xxh3_64 d.collections) txn
        (formats.exported number readers) = .ok (txn', n) ↔
      n = UInt32.ofNat readers.length ∧ ∃ saves,
        List.Forall₂ (c.RestoredAs d.collections formats number strToId) readers saves ∧
        c.SavesAll xxh3_64 saves txn txn') := by
  have importable := importable_of_run run fewC opened began
  have returns (reader : IsarReader) (mem : reader ∈ readers) :
      ExportReturns d.collections c strToId reader (formats.restoredReader number reader)
        (.ofDoc number (formats.serialize reader)) := by
    obtain ⟨object, shows⟩ := shown reader mem
    exact exportReturns_of_shows few importable.names rereads opened shows
  have array : formats.exported number readers = .array (text (.array (readers.map formats.serialize)))
      (Source.ofDocs number (readers.map formats.serialize)) := rfl
  have elements : Source.ofDocs number (readers.map formats.serialize) =
      readers.map fun reader => Source.ofDoc number (formats.serialize reader) := by
    rw [ofDocs_eq_map, List.map_map]
    rfl
  refine ⟨fun reader mem => ?_, ?_⟩
  · obtain ⟨raw, entries, writes, eq, planned, -⟩ := (returns reader mem).entries
    exact ⟨raw, entries, writes, eq, planned⟩
  rw [array, importJson_array few opened importable (plain_exported returns), elements,
    List.length_map]
  simp only [List.forall₂_map_left_iff]
  refine and_congr_right fun _ => exists_congr fun saves => and_congr_left fun _ => ?_
  constructor
  · intro written
    refine List.forall₂_iff_zip.mpr ⟨written.length_eq, fun pair => ?_⟩
    exact (returns _ (List.of_mem_zip pair).1).restoredAs few opened importable.laid
      ((List.forall₂_iff_zip.mp written).2 pair)
  · exact fun restored => restored.imp fun _ _ restored => restored.written

end

/-! ## An exported task -/

/-- The number of decimal digits. -/
def decimalNumber (n : Numeral) : JsonNumber :=
  .integer (if n.token.head? = some '-' then -Nat.ofDigitChars 10 n.token.tail 0
    else Nat.ofDigitChars 10 n.token 0)

theorem decimalNumber_integer (v : Int) : decimalNumber (JsonText.integer v) = .integer v := by
  have digits := @Nat.ofDigitChars_ten_toDigits v.natAbs
  unfold decimalNumber JsonText.integer JsonText.decimal
  by_cases negative : v < 0
  · simp only [if_pos negative, List.head?_cons, if_true, List.tail_cons, digits]
    exact congrArg JsonNumber.integer (by omega)
  · simp only [if_neg negative]
    have first : (Nat.toDigits 10 v.natAbs).head? ≠ some '-' := fun eq =>
      minus_notMem_toDigits (List.mem_of_head? eq)
    rw [if_neg first, digits]
    exact congrArg JsonNumber.integer (by omega)

/-- Texts without JSON and floats. -/
def plainFormats : Formats where
  fromStr := fun _ => none
  ryuF32 := fun v => JsonText.integer v.bits.toNat
  ryuF64 := fun v => JsonText.integer v.bits.toNat
  displayF32 := fun v => JsonText.decimal v.bits.toNat
  displayF64 := fun v => JsonText.decimal v.bits.toNat

def shownTask : IsarReader := ⟨some "id", 1, [("due", .long, .long 5)]⟩

theorem export_import_on_tasks : ∃ txn' object,
    Inserts.importJson noMessages (fun _ => 0) (tasks.inserts (fun _ => 0) [tasks])
        (dueStorage.beginTxn fun _ => 1) (plainFormats.exported decimalNumber [shownTask]) =
      .ok (txn', 1) ∧
      tasks.objects txn' 1 = some object ∧ tasks.Shows [tasks] 1 object shownTask := by
  obtain ⟨⟨txn', n⟩, done, found⟩ := exists_of_succeedsWith
    (Inserts.importJson noMessages (fun _ => 0) (tasks.inserts (fun _ => 0) [tasks])
      (dueStorage.beginTxn fun _ => 1) (plainFormats.exported decimalNumber [shownTask]))
    (fun after => after.2 == 1) (by decide +kernel)
  obtain rfl : n = 1 := beq_iff_eq.mp found
  have single : Unambiguous [countedBy "Task" "due"] :=
    (unambiguous_iff (by decide)).mpr (by decide)
  have run : Run (fun d event d' => Database.Step (fun _ => 0) d event d' ∧ d.Plain event)
      Database.new [.migrate noFaults [countedBy "Task" "due"]] ⟨dueStorage, [tasks]⟩ :=
    .cons ⟨@Database.Step.migrate _ _ noFaults [countedBy "Task" "due"] dueStorage [(tasks, 1)] rfl
      (by decide) rfl, single⟩ .nil
  have few (c : NativeCollection) (mem : c ∈ [tasks]) : c.properties.length < 2 ^ 16 := by
    cases List.mem_singleton.mp mem
    decide
  have began : tasks.run (fun _ => 0) (dueStorage.beginTxn fun _ => 1) [] =
    .ok (dueStorage.beginTxn fun _ => 1) := rfl
  have rereads : plainFormats.Rereads decimalNumber :=
    ⟨fun v _ _ => decimalNumber_integer v, by
      rintro s value - ⟨⟩⟩
  have shown (reader : IsarReader) (mem : reader ∈ [shownTask]) :
      ∃ object, tasks.Shows [tasks] reader.id object reader := by
    obtain rfl := List.mem_singleton.mp mem
    refine ⟨dueTask, rfl, rfl, rfl, _, rfl, ⟨rfl, ?_, ?_, ?_⟩, trivial⟩ <;> decide +kernel
  obtain ⟨-, saves, restored, saved⟩ :=
    (export_import run few (by decide) (List.mem_singleton_self tasks) began rereads shown).2.mp done
  obtain ⟨⟨id, object⟩, saves, one, rest, rfl⟩ := List.forall₂_cons_left_iff.mp restored
  obtain rfl := List.forall₂_nil_left_iff.mp rest
  have same := one.id
  cases same
  exact ⟨txn', object, done, saved.last [] 1 object rfl, one.shows⟩

end IsarPlus.Native
