import IsarPlus.Core.ChangeDetector
import Mathlib

/-!
# Which updates are reported

Fields are compared by their texts. Two different values of a property have the same text if both
are null or infinite, if they are lists of one length or objects with one JSON document, or if the
property is called `value` and both JSON texts have the same inner value (`Merged`); an update is
reported as it is if and only if no property has changed between two such values.
-/

namespace IsarPlus
open Scalar JsonText

/-- The properties of a schema that have a name. -/
def IsarSchema.fields (schema : IsarSchema) : List (String × PropertySchema) :=
  schema.properties.filterMap fun p => p.name.map fun name => (name, p)

section
variable (all : List IsarSchema)

mutual

/-- A value of a type: the null of a type is always `null`, and a byte is never null. -/
def ReadValue.Of (t : DataType) (target : Option String) : ReadValue → Prop
  | .null => t ≠ .byte
  | .bool _ => t = .bool
  | .byte _ => t = .byte
  | .int v => t = .int ∧ v ≠ nullInt
  | .float v => t = .float ∧ v.isNan = false
  | .long v => t = .long ∧ v ≠ nullLong
  | .double v => t = .double ∧ v.isNan = false
  | .string _ => t = .string ∨ t = .json
  | .object idName properties => t = .object ∧ ∃ schema,
      (all.find? fun schema => target = some schema.name) = some schema ∧
        idName = schema.idName ∧ PropertiesOf properties schema.fields
  | .list elements => ∃ e, t.elementType = some e ∧ ElementsOf e target elements

/-- Values of all properties of a schema. -/
def PropertiesOf : List (String × DataType × ReadValue) → List (String × PropertySchema) → Prop
  | [], fields => fields = []
  | (name, t, v) :: properties, fields => ∃ p rest, fields = (name, p) :: rest ∧ t = p.dataType ∧
      v.Of p.dataType p.collection ∧ PropertiesOf properties rest

def ElementsOf (t : DataType) (target : Option String) : List ReadValue → Prop
  | [] => True
  | v :: elements => v.Of t target ∧ ElementsOf t target elements

end

/-- An object of a schema. -/
def IsarReader.Of (reader : IsarReader) (schema : IsarSchema) : Prop :=
  reader.idName = schema.idName ∧ PropertiesOf all reader.properties schema.fields

end

/-- A null or a float that is no number; JSON and the detector take all of them for null. -/
def ReadValue.isBlank : ReadValue → Bool
  | .null => true
  | .float v => !v.isFinite
  | .double v => !v.isFinite
  | _ => false

namespace Formats

variable (formats : Formats)

/-- What the libraries promise: different floats have different texts, which have no braces, and
only a text with a brace is parsed as an object, as is that of an object. -/
structure Faithful : Prop where
  ryuF32_inj : ∀ {v w : F32}, v.isFinite → w.isFinite → formats.ryuF32 v = formats.ryuF32 w → v = w
  ryuF64_inj : ∀ {v w : F64}, v.isFinite → w.isFinite → formats.ryuF64 v = formats.ryuF64 w → v = w
  displayF32_inj : ∀ {v w : F32}, v.isFinite → w.isFinite →
    formats.displayF32 v = formats.displayF32 w → v = w
  displayF64_inj : ∀ {v w : F64}, v.isFinite → w.isFinite →
    formats.displayF64 v = formats.displayF64 w → v = w
  displayF32_brace : ∀ v, '{' ∉ formats.displayF32 v
  displayF64_brace : ∀ v, '{' ∉ formats.displayF64 v
  fromStr_brace : ∀ {s map}, formats.fromStr s = some (.object map) → '{' ∈ s
  fromStr_object : ∀ {entries value}, formats.fromStr (text (.object entries)) = some value →
    entries ≠ [] → ∃ map, value = .object map ∧ map ≠ []

/-- The JSON value that a JSON property holds; null if its text is no JSON. -/
def jsonDoc : ReadValue → Doc
  | .string s => match formats.fromStr s with
    | some parsed => formats.docOf parsed
    | none => .null
  | _ => .null

mutual

/-- Two values of a nested object that JSON does not tell apart: values without a number, JSON of
the same value, and what consists of such values. -/
def Alike (t : DataType) : ReadValue → ReadValue → Prop
  | .object _ properties, w => ∃ idName properties', w = .object idName properties' ∧
      AlikeProperties properties properties'
  | .list elements, w => ∃ e elements', t.elementType = some e ∧ w = .list elements' ∧
      AlikeElements e elements elements'
  | v, w => v = w ∨ (v.isBlank ∧ w.isBlank) ∨ (t = .json ∧ formats.jsonDoc v = formats.jsonDoc w)

def AlikeProperties :
    List (String × DataType × ReadValue) → List (String × DataType × ReadValue) → Prop
  | [], properties' => properties' = []
  | (_, t, v) :: properties, properties' => ∃ name w rest, properties' = (name, t, w) :: rest ∧
      Alike t v w ∧ AlikeProperties properties rest

def AlikeElements (t : DataType) : List ReadValue → List ReadValue → Prop
  | [], elements' => elements' = []
  | v :: elements, elements' => ∃ w rest, elements' = w :: rest ∧
      Alike t v w ∧ AlikeElements t elements rest

end

/-- What a property with the name `value` shows of a string or an object. -/
def shown : ReadValue → Option (List Char)
  | .string s => some (formats.extractInnerJsonValue s)
  | .object idName properties => some (formats.extractInnerJsonValue
      (text (formats.serialize { idName, id := Int64.minValue, properties })))
  | _ => none

/-- Two values of a property that have the same text. -/
def Merged (name : String) (v w : ReadValue) : Prop :=
  (v.isBlank ∧ w.isBlank) ∨
  (∃ elements elements', v = .list elements ∧ w = .list elements' ∧
    elements.length = elements'.length) ∨
  (∃ idName properties, v = .object idName properties ∧ formats.Alike .object v w) ∨
  (name = "value" ∧ (formats.shown v).isSome ∧ formats.shown v = formats.shown w)

variable {formats} {all : List IsarSchema} {t : DataType} {target : Option String}

/-! ## JSON documents -/

/-- Something that finite floats are told apart by tells all but the infinite ones apart. -/
theorem finite_eq_iff {α β : Type} {isFinite : α → Bool} {some_ : α → β} {none_ : β}
    (inj : ∀ {v w}, isFinite v = true → isFinite w = true → some_ v = some_ w → v = w)
    (ne : ∀ v, some_ v ≠ none_) (v w : α) :
    (if isFinite v then some_ v else none_) = (if isFinite w then some_ w else none_) ↔
      v = w ∨ (isFinite v = false ∧ isFinite w = false) := by
  cases hv : isFinite v <;> cases hw : isFinite w
  · simp
  · have other : v ≠ w := fun same => by simp [same, hw] at hv
    simp [other, (ne w).symm]
  · have other : v ≠ w := fun same => by simp [same, hw] at hv
    simp [other, ne v]
  · simp only [if_true, Bool.true_eq_false, false_and, or_false]
    exact ⟨inj hv hw, congrArg _⟩

theorem docOfF32_eq_iff (faithful : formats.Faithful) {v w : F32} :
    formats.docOfF32 v = formats.docOfF32 w ↔ v = w ∨ (v.isFinite = false ∧ w.isFinite = false) :=
  finite_eq_iff (fun hv hw h => faithful.ryuF32_inj hv hw (Doc.number.inj h))
    (fun _ => Doc.noConfusion) v w

theorem docOfF64_eq_iff (faithful : formats.Faithful) {v w : F64} :
    formats.docOfF64 v = formats.docOfF64 w ↔ v = w ∨ (v.isFinite = false ∧ w.isFinite = false) :=
  finite_eq_iff (fun hv hw h => faithful.ryuF64_inj hv hw (Doc.number.inj h))
    (fun _ => Doc.noConfusion) v w

theorem docOfF32_eq_null_iff {v : F32} : formats.docOfF32 v = .null ↔ v.isFinite = false := by
  unfold docOfF32
  cases v.isFinite <;> simp

theorem docOfF64_eq_null_iff {v : F64} : formats.docOfF64 v = .null ↔ v.isFinite = false := by
  unfold docOfF64
  cases v.isFinite <;> simp

theorem integer_eq_iff {m n : Int} : JsonText.integer m = JsonText.integer n ↔ m = n :=
  integer_injective.eq_iff

theorem serializeScalar_json (v : ReadValue) :
    formats.serializeScalar .json v = formats.jsonDoc v := by
  cases v <;> rfl

/-- The documents of values that are neither objects nor lists. -/
theorem serializeValue_eq_iff (faithful : formats.Faithful) {v w : ReadValue}
    (hv : v.Of all t target) (hw : w.Of all t target)
    (leaf : ∀ idName properties, v ≠ .object idName properties)
    (leaf' : ∀ elements, v ≠ .list elements) :
    formats.serializeValue t v = formats.serializeValue t w ↔
      v = w ∨ (v.isBlank ∧ w.isBlank) ∨
        (t = .json ∧ formats.jsonDoc v = formats.jsonDoc w) := by
  cases v with
  | object idName properties => exact absurd rfl (leaf idName properties)
  | list elements => exact absurd rfl (leaf' elements)
  | null =>
    cases w with
    | byte => exact absurd hw hv
    | string s =>
      rcases hw with rfl | rfl
      · simp [serializeValue, serializeScalar, ReadValue.isBlank, ReadValue.readString]
      · simp [serializeValue, serializeScalar_json, ReadValue.isBlank]
    | object idName properties =>
      obtain ⟨rfl, -⟩ := hw
      simp [serializeValue, serializeScalar, ReadValue.isBlank]
    | list elements =>
      obtain ⟨e, element, -⟩ := hw
      cases t <;> cases element <;>
        simp [serializeValue, serializeScalar, ReadValue.isBlank, DataType.elementType]
    | _ =>
      cases t <;> simp [ReadValue.Of] at hw <;>
        simp [serializeValue, serializeScalar, ReadValue.isBlank, ReadValue.isNull,
          ReadValue.readBool, ReadValue.readFloat, ReadValue.readDouble, eq_comm (a := Doc.null),
          docOfF32_eq_null_iff, docOfF64_eq_null_iff]
  | string s =>
    rcases hv with rfl | rfl
    · cases w <;> simp [ReadValue.Of, DataType.elementType] at hw <;>
        simp [serializeValue, serializeScalar, ReadValue.isBlank, ReadValue.readString]
    · have same : ReadValue.string s = w → formats.jsonDoc (.string s) = formats.jsonDoc w :=
        congrArg _
      cases w with
      | string => simpa [serializeValue, serializeScalar_json, ReadValue.isBlank] using same
      | null => simp [serializeValue, serializeScalar_json, ReadValue.isBlank]
      | _ => simp [ReadValue.Of, DataType.elementType] at hw
  | _ =>
    cases t <;> simp [ReadValue.Of] at hv
    cases w <;> simp [ReadValue.Of, DataType.elementType] at hw <;>
      simp [serializeValue, serializeScalar, ReadValue.isBlank, ReadValue.isNull,
        ReadValue.readBool, ReadValue.readByte, ReadValue.readInt, ReadValue.readLong,
        ReadValue.readFloat, ReadValue.readDouble, docOfF32_eq_iff faithful,
        docOfF64_eq_iff faithful, docOfF32_eq_null_iff, docOfF64_eq_null_iff, integer_eq_iff,
        ← UInt8.toNat_inj, ← Int32.toInt_inj, ← Int64.toInt_inj]

theorem map_fst_of_propertiesOf {properties : List (String × DataType × ReadValue)}
    {fields : List (String × PropertySchema)} (h : PropertiesOf all properties fields) :
    properties.map Prod.fst = fields.map Prod.fst := by
  induction properties generalizing fields with
  | nil =>
    rw [PropertiesOf] at h
    rw [h]
    rfl
  | cons p properties ih =>
    obtain ⟨name, t, v⟩ := p
    obtain ⟨_, rest, rfl, -, -, later⟩ := h
    rw [List.map_cons, List.map_cons, ih later]

/-- An element is written as a property of its type is. -/
theorem serializeElements_cons {list : DataType} (element : list.elementType = some t)
    {v : ReadValue} (hv : v.Of all t target) (elements : List ReadValue) :
    formats.serializeElements t (v :: elements) =
      formats.serializeValue t v :: formats.serializeElements t elements := by
  cases v with
  | object idName properties =>
    obtain ⟨rfl, -⟩ := hv
    rw [serializeElements, serializeValue, if_pos rfl, if_pos rfl]
  | list =>
    obtain ⟨_, inner, -⟩ := hv
    cases list <;> cases element <;> cases inner
  | _ =>
    rw [serializeElements, serializeValue]
    · have nanF32 : nullFloat.isNan = true := by decide
      have nanF64 : nullDouble.isNan = true := by decide
      cases t <;> simp [ReadValue.Of] at hv <;>
        simp [serializeElement, serializeScalar, ReadValue.isNull, ReadValue.readBool,
          ReadValue.readByte, ReadValue.readInt, ReadValue.readFloat, ReadValue.readLong,
          ReadValue.readDouble, ReadValue.readString, nanF32, nanF64, hv]
      all_goals cases list <;> cases element
    all_goals nofun

mutual

/-- Values of one type have one document if and only if JSON does not tell them apart. -/
theorem alike_iff (faithful : formats.Faithful) : ∀ (v w : ReadValue) {t : DataType}
    {target : Option String}, v.Of all t target → w.Of all t target →
    (formats.serializeValue t v = formats.serializeValue t w ↔ formats.Alike t v w)
  | .object idName properties, w, t, target, hv, hw => by
    obtain ⟨rfl, schema, found, idOf, of⟩ := hv
    rw [Alike, serializeValue, if_pos rfl]
    cases w with
    | object idName' properties' =>
      obtain ⟨-, schema', found', idOf', of'⟩ := hw
      obtain rfl : schema = schema' := Option.some.inj (found.symm.trans found')
      have names := (map_fst_of_propertiesOf of).trans (map_fst_of_propertiesOf of').symm
      rw [serializeValue, if_pos rfl, idOf, idOf', names, Doc.object.injEq, List.append_left_inj,
        alikeProperties_iff faithful properties properties' of of']
      simp
    | null => simp [serializeValue, serializeScalar]
    | list =>
      obtain ⟨_, element, -⟩ := hw
      cases element
    | _ => simp [ReadValue.Of] at hw
  | .list elements, w, t, target, hv, hw => by
    obtain ⟨e, element, of⟩ := hv
    rw [Alike, serializeValue, element]
    cases w with
    | list elements' =>
      obtain ⟨e', element', of'⟩ := hw
      obtain rfl : e = e' := Option.some.inj (element.symm.trans element')
      simp only [serializeValue, element, Doc.array.injEq]
      rw [alikeElements_iff faithful elements elements' element of of']
      simp
    | null =>
      cases t <;> cases element <;> simp [serializeValue, serializeScalar]
    | _ => cases t <;> cases element <;> simp [ReadValue.Of] at hw
  | .null, w, t, target, hv, hw | .bool _, w, t, target, hv, hw | .byte _, w, t, target, hv, hw
  | .int _, w, t, target, hv, hw | .float _, w, t, target, hv, hw | .long _, w, t, target, hv, hw
  | .double _, w, t, target, hv, hw | .string _, w, t, target, hv, hw => by
    rw [serializeValue_eq_iff faithful hv hw nofun nofun]
    simp [Alike]

theorem alikeProperties_iff (faithful : formats.Faithful) :
    ∀ (properties properties' : List (String × DataType × ReadValue))
    {fields : List (String × PropertySchema)}, PropertiesOf all properties fields →
    PropertiesOf all properties' fields →
    (formats.serializeProperties properties = formats.serializeProperties properties' ↔
      formats.AlikeProperties properties properties')
  | [], properties', fields, h, h' => by
    rw [PropertiesOf] at h
    rcases properties' with _ | ⟨⟨name, t, v⟩, properties'⟩
    · simp [AlikeProperties]
    · obtain ⟨_, _, eq, -⟩ := h'
      cases h.symm.trans eq
  | (name, t, v) :: properties, properties', fields, h, h' => by
    obtain ⟨p, rest, rfl, rfl, hv, later⟩ := h
    rcases properties' with _ | ⟨⟨name', t', w⟩, properties'⟩
    · cases h'
    · obtain ⟨p', rest', eq, rfl, hw, later'⟩ := h'
      cases eq
      have first := alike_iff faithful v w hv hw
      have others := alikeProperties_iff faithful properties properties' later later'
      rw [serializeProperties, serializeProperties, List.cons.injEq, Prod.mk.injEq, others, first]
      simp [AlikeProperties]

theorem alikeElements_iff (faithful : formats.Faithful) :
    ∀ (elements elements' : List ReadValue) {list t : DataType} {target : Option String},
    list.elementType = some t → ElementsOf all t target elements →
    ElementsOf all t target elements' →
    (formats.serializeElements t elements = formats.serializeElements t elements' ↔
      formats.AlikeElements t elements elements')
  | [], elements', list, t, target, element, h, h' => by
    rw [AlikeElements]
    cases elements' with
    | nil => simp
    | cons w elements' =>
      rw [serializeElements_cons element h'.1]
      simp [serializeElements]
  | v :: elements, elements', list, t, target, element, h, h' => by
    rw [serializeElements_cons element h.1]
    cases elements' with
    | nil => simp [AlikeElements, serializeElements]
    | cons w elements' =>
      have first := alike_iff faithful v w h.1 h'.1
      have others := alikeElements_iff faithful elements elements' element h.2 h'.2
      rw [serializeElements_cons element h'.1, List.cons.injEq, others, first]
      simp [AlikeElements]

end

/-! ## Texts -/

/-- A text without a brace is no JSON object with an inner value. -/
theorem extractInnerJsonValue_eq_self (faithful : formats.Faithful) {s : List Char}
    (h : '{' ∉ s) : formats.extractInnerJsonValue s = s := by
  unfold extractInnerJsonValue
  split
  · rename_i parsed
    exact absurd (faithful.fromStr_brace parsed) h
  · rfl

theorem brace_notMem_decimal {n : Int} : '{' ∉ decimal n := fun mem =>
  absurd (isNumeral_decimal _ mem) (by decide)

/-- Texts without braces are compared as they are. -/
theorem processFieldValue_eq_self (faithful : formats.Faithful) (name : String)
    {value : Option (List Char)} (h : ∀ s ∈ value, '{' ∉ s) :
    formats.processFieldValue name value = value := by
  cases value with
  | none => rfl
  | some s =>
    unfold processFieldValue
    rw [Option.map_some, extractInnerJsonValue_eq_self faithful (h s rfl), ite_self]

@[simp] theorem readFieldValue_null : formats.readFieldValue .null t = none := rfl

/-- Only strings and objects have texts with braces. -/
theorem brace_notMem_readFieldValue (faithful : formats.Faithful) {v : ReadValue} (t : DataType)
    (noString : v.readString = none) (noObject : v.readObject = none) :
    ∀ s ∈ formats.readFieldValue v t, '{' ∉ s := by
  intro s mem
  unfold readFieldValue at mem
  split at mem
  · cases mem
  cases t <;> simp only [noString, noObject, Option.map_none, Option.mem_def, reduceCtorEq] at mem
  case bool =>
    obtain ⟨b, -, rfl⟩ := Option.map_eq_some_iff.mp mem
    cases b <;> decide
  case byte =>
    cases mem
    exact brace_notMem_decimal
  case float =>
    split at mem <;> cases mem
    exact faithful.displayF32_brace _
  case double =>
    split at mem <;> cases mem
    exact faithful.displayF64_brace _
  case int | long =>
    split at mem <;> cases mem
    exact brace_notMem_decimal
  all_goals
    obtain ⟨elements, -, rfl⟩ := Option.map_eq_some_iff.mp mem
    simp [brace_notMem_decimal]

theorem display_eq_iff {α : Type} {isFinite : α → Bool} {display : α → List Char}
    (inj : ∀ {v w}, isFinite v = true → isFinite w = true → display v = display w → v = w)
    (v w : α) :
    (if isFinite v then some (display v) else none) =
      (if isFinite w then some (display w) else none) ↔
      v = w ∨ (isFinite v = false ∧ isFinite w = false) :=
  finite_eq_iff (fun hv hw h => inj hv hw (Option.some.inj h)) (fun _ => Option.some_ne_none _) v w

theorem display_eq_none_iff {α : Type} {isFinite : Bool} {a : α} :
    (if isFinite then some a else none) = none ↔ isFinite = false := by
  cases isFinite <;> simp

theorem boolText_eq_iff (a b : Bool) :
    ((if a then ['t', 'r', 'u', 'e'] else ['f', 'a', 'l', 's', 'e']) =
      if b then ['t', 'r', 'u', 'e'] else ['f', 'a', 'l', 's', 'e']) ↔ a = b := by
  cases a <;> cases b <;> decide

/-- The texts of values that are neither strings nor objects. -/
theorem readFieldValue_eq_iff (faithful : formats.Faithful) {v w : ReadValue}
    (hv : v.Of all t target) (hw : w.Of all t target) (noString : v.readString = none)
    (noObject : v.readObject = none) (noString' : w.readString = none)
    (noObject' : w.readObject = none) :
    formats.readFieldValue v t = formats.readFieldValue w t ↔
      v = w ∨ (v.isBlank ∧ w.isBlank) ∨ ∃ elements elements', v = .list elements ∧
        w = .list elements' ∧ elements.length = elements'.length := by
  cases v with
  | string => cases noString
  | object => cases noObject
  | list elements =>
    obtain ⟨e, element, -⟩ := hv
    cases w with
    | string => cases noString'
    | object => cases noObject'
    | list elements' =>
      cases t <;> cases element <;>
        simp [readFieldValue, ReadValue.isNull, ReadValue.readList, ReadValue.isBlank,
          decimal_injective.eq_iff] <;> intro h <;> rw [h]
    | null =>
      cases t <;> cases element <;>
        simp [readFieldValue, ReadValue.isNull, ReadValue.readList, ReadValue.isBlank]
    | _ => cases t <;> cases element <;> simp [ReadValue.Of] at hw
  | null =>
    cases w with
    | string => cases noString'
    | object => cases noObject'
    | list =>
      obtain ⟨_, element, -⟩ := hw
      cases t <;> cases element <;>
        simp [readFieldValue, ReadValue.isNull, ReadValue.readList, ReadValue.isBlank]
    | float v =>
      obtain ⟨rfl, -⟩ := hw
      have blank : formats.readFieldValue (.float v) .float = none ↔ v.isFinite = false :=
        display_eq_none_iff
      simpa [ReadValue.isBlank] using eq_comm.trans blank
    | double v =>
      obtain ⟨rfl, -⟩ := hw
      have blank : formats.readFieldValue (.double v) .double = none ↔ v.isFinite = false :=
        display_eq_none_iff
      simpa [ReadValue.isBlank] using eq_comm.trans blank
    | _ =>
      cases t <;> simp [ReadValue.Of] at hw hv <;>
        simp [readFieldValue, ReadValue.isNull, ReadValue.isBlank, ReadValue.readBool,
          ReadValue.readInt, ReadValue.readLong, hw]
  | float v =>
    obtain ⟨rfl, -⟩ := hv
    have blank : formats.readFieldValue (.float v) .float = none ↔ v.isFinite = false :=
      display_eq_none_iff
    cases w with
    | null => simpa [ReadValue.isBlank] using blank
    | float w =>
      have numbers := display_eq_iff faithful.displayF32_inj v w
      simp only [ReadValue.isBlank, Bool.not_eq_true', ReadValue.float.injEq, reduceCtorEq,
        false_and, exists_false, or_false]
      exact numbers
    | list =>
      obtain ⟨_, element, -⟩ := hw
      cases element
    | _ => simp [ReadValue.Of] at hw
  | double v =>
    obtain ⟨rfl, -⟩ := hv
    have blank : formats.readFieldValue (.double v) .double = none ↔ v.isFinite = false :=
      display_eq_none_iff
    cases w with
    | null => simpa [ReadValue.isBlank] using blank
    | double w =>
      have numbers := display_eq_iff faithful.displayF64_inj v w
      simp only [ReadValue.isBlank, Bool.not_eq_true', ReadValue.double.injEq, reduceCtorEq,
        false_and, exists_false, or_false]
      exact numbers
    | list =>
      obtain ⟨_, element, -⟩ := hw
      cases element
    | _ => simp [ReadValue.Of] at hw
  | bool a =>
    obtain rfl : t = .bool := hv
    cases w with
    | bool b => simpa [readFieldValue, ReadValue.isNull, ReadValue.isBlank, ReadValue.readBool]
        using boolText_eq_iff a b
    | null => simp [readFieldValue, ReadValue.isNull, ReadValue.isBlank, ReadValue.readBool]
    | list =>
      obtain ⟨_, element, -⟩ := hw
      cases element
    | _ => simp [ReadValue.Of] at hw
  | _ =>
    cases t <;> simp [ReadValue.Of] at hv
    cases w <;> simp [ReadValue.Of, DataType.elementType] at hw <;>
      simp [readFieldValue, ReadValue.isNull, ReadValue.isBlank, ReadValue.readByte,
        ReadValue.readInt, ReadValue.readLong, hv, hw, decimal_injective.eq_iff,
        ← UInt8.toNat_inj, ← Int32.toInt_inj, ← Int64.toInt_inj]

/-- The texts of values that are neither strings nor objects, whatever the name. -/
theorem fieldText_flat_eq_iff (faithful : formats.Faithful) (name : String) {v w : ReadValue}
    (hv : v.Of all t target) (hw : w.Of all t target) (noString : v.readString = none)
    (noObject : v.readObject = none) (noString' : w.readString = none)
    (noObject' : w.readObject = none) :
    formats.fieldText name t v = formats.fieldText name t w ↔ v = w ∨ formats.Merged name v w := by
  rw [fieldText, fieldText, processFieldValue_eq_self faithful name
      (brace_notMem_readFieldValue faithful t noString noObject),
    processFieldValue_eq_self faithful name
      (brace_notMem_readFieldValue faithful t noString' noObject'),
    readFieldValue_eq_iff faithful hv hw noString noObject noString' noObject', Merged]
  have plain : formats.shown v = none := by
    cases v with
    | string => exact absurd noString (Option.some_ne_none _)
    | object => exact absurd noObject (Option.some_ne_none _)
    | _ => rfl
  have notObject (idName : Option String) (properties : List (String × DataType × ReadValue)) :
      v ≠ .object idName properties := by
    intro same
    rw [same] at noObject
    cases noObject
  simp [plain, notObject]

theorem fieldText_null (name : String) : formats.fieldText name t .null = none := rfl

theorem fieldText_object (name : String) (idName : Option String)
    (properties : List (String × DataType × ReadValue)) :
    formats.fieldText name .object (.object idName properties) =
      some (if name = "value" then formats.extractInnerJsonValue
          (text (formats.serialize { idName, id := Int64.minValue, properties }))
        else text (formats.serialize { idName, id := Int64.minValue, properties })) := rfl

theorem serialize_eq (idName : Option String)
    (properties : List (String × DataType × ReadValue)) :
    formats.serialize { idName, id := Int64.minValue, properties } =
      formats.serializeValue .object (.object idName properties) := by
  rw [serialize, serializeValue, if_pos rfl]

/-- The texts of two strings. -/
theorem fieldText_string_eq_iff (name : String) (isString : t = .string ∨ t = .json)
    (s s' : List Char) :
    formats.fieldText name t (.string s) = formats.fieldText name t (.string s') ↔
      s = s' ∨ (name = "value" ∧
        formats.extractInnerJsonValue s = formats.extractInnerJsonValue s') := by
  have plain (s : List Char) : formats.fieldText name t (.string s) =
      some (if name = "value" then formats.extractInnerJsonValue s else s) := by
    rcases isString with rfl | rfl <;> rfl
  rw [plain, plain, Option.some.injEq]
  by_cases value : name = "value"
  · rw [if_pos value, if_pos value, and_iff_right value]
    exact ⟨Or.inr, fun h => h.elim (congrArg _) id⟩
  · simp [value]

/-- The texts of two objects. -/
theorem fieldText_object_eq_iff (faithful : formats.Faithful) (name : String)
    {idName idName' : Option String} {properties properties' : List (String × DataType × ReadValue)}
    (hv : (ReadValue.object idName properties).Of all .object target)
    (hw : (ReadValue.object idName' properties').Of all .object target) :
    formats.fieldText name .object (.object idName properties) =
        formats.fieldText name .object (.object idName' properties') ↔
      formats.Alike .object (.object idName properties) (.object idName' properties') ∨
        (name = "value" ∧ formats.shown (.object idName properties) =
          formats.shown (.object idName' properties')) := by
  rw [fieldText_object, fieldText_object, ← alike_iff faithful _ _ hv hw, shown, shown,
    serialize_eq, serialize_eq, Option.some.injEq, Option.some.injEq]
  by_cases value : name = "value"
  · rw [if_pos value, if_pos value, and_iff_right value]
    refine ⟨Or.inr, fun h => h.elim (fun same => ?_) id⟩
    rw [same]
  · rw [if_neg value, if_neg value, text_injective.eq_iff]
    simp [value]

/-- Two values of a property have the same text if and only if they are the same or merged. -/
theorem fieldText_eq_iff (faithful : formats.Faithful) (name : String) {v w : ReadValue}
    (hv : v.Of all t target) (hw : w.Of all t target) :
    formats.fieldText name t v = formats.fieldText name t w ↔ v = w ∨ formats.Merged name v w := by
  cases v with
  | string s =>
    cases w with
    | string s' =>
      rw [fieldText_string_eq_iff name hv]
      simp [Merged, ReadValue.isBlank, shown]
    | null => rcases hv with rfl | rfl <;> simp [fieldText, processFieldValue, readFieldValue,
        ReadValue.isNull, ReadValue.readString, Merged, ReadValue.isBlank, shown]
    | object =>
      obtain ⟨rfl, -⟩ := hw
      simp [ReadValue.Of] at hv
    | list =>
      obtain ⟨_, element, -⟩ := hw
      rcases hv with rfl | rfl <;> cases element
    | _ => rcases hv with rfl | rfl <;> simp [ReadValue.Of] at hw
  | object idName properties =>
    obtain rfl : t = .object := hv.1
    cases w with
    | object idName' properties' =>
      rw [fieldText_object_eq_iff faithful name hv hw]
      have same : ReadValue.object idName properties = .object idName' properties' →
          formats.Alike .object (.object idName properties) (.object idName' properties') :=
        fun eq => (alike_iff faithful _ _ hv hw).mp (congrArg _ eq)
      have merged : formats.Merged name (.object idName properties)
          (.object idName' properties') ↔
          formats.Alike .object (.object idName properties) (.object idName' properties') ∨
            (name = "value" ∧ formats.shown (.object idName properties) =
              formats.shown (.object idName' properties')) := by
        simp [Merged, ReadValue.isBlank, shown]
      rw [merged, ← or_assoc, or_iff_right_of_imp same]
    | null =>
      rw [fieldText_object, fieldText_null]
      simp [Merged, ReadValue.isBlank, shown, Alike]
    | list =>
      obtain ⟨_, element, -⟩ := hw
      cases element
    | _ => simp [ReadValue.Of] at hw
  | null =>
    cases w with
    | string s => rcases hw with rfl | rfl <;> simp [fieldText, processFieldValue, readFieldValue,
        ReadValue.isNull, ReadValue.readString, Merged, ReadValue.isBlank, shown]
    | object idName properties =>
      obtain ⟨rfl, -⟩ := hw
      rw [fieldText_object, fieldText_null]
      simp [Merged, ReadValue.isBlank, shown]
    | _ => exact fieldText_flat_eq_iff faithful name hv hw rfl rfl rfl rfl
  | _ =>
    have flat : w.readString = none ∧ w.readObject = none := by
      cases w <;> first | exact ⟨rfl, rfl⟩ | skip
      all_goals cases t <;> simp [ReadValue.Of, DataType.elementType] at hv hw
    exact fieldText_flat_eq_iff faithful name hv hw rfl rfl flat.1 flat.2

/-! ## Updates -/

theorem properties_aligned {old new : List (String × DataType × ReadValue)}
    {fields : List (String × PropertySchema)} (hold : PropertiesOf all old fields)
    (hnew : PropertiesOf all new fields) :
    old.length = new.length ∧ ∀ pair ∈ old.zip new, pair.1.1 = pair.2.1 ∧ pair.1.2.1 = pair.2.2.1 ∧
      ∃ target, pair.1.2.2.Of all pair.2.2.1 target ∧ pair.2.2.2.Of all pair.2.2.1 target := by
  induction old generalizing new fields with
  | nil =>
    rw [PropertiesOf] at hold
    rcases new with _ | ⟨⟨name, t, v⟩, new⟩
    · simp
    · obtain ⟨_, _, eq, -⟩ := hnew
      cases hold.symm.trans eq
  | cons first old ih =>
    obtain ⟨name, t, v⟩ := first
    obtain ⟨p, rest, rfl, rfl, hv, later⟩ := hold
    rcases new with _ | ⟨⟨name', t', w⟩, new⟩
    · cases hnew
    · obtain ⟨p', rest', eq, rfl, hw, later'⟩ := hnew
      cases eq
      obtain ⟨length, aligned⟩ := ih later later'
      refine ⟨congrArg Nat.succ length, fun pair mem => ?_⟩
      rw [List.zip_cons_cons] at mem
      rcases List.mem_cons.mp mem with rfl | mem
      · exact ⟨rfl, rfl, _, hv, hw⟩
      · exact aligned pair mem

/-- A property of the old object with that of the new one. -/
abbrev PropertyPair := (String × DataType × ReadValue) × String × DataType × ReadValue

/-- The text of the old value, and of the new one. -/
def oldText (formats : Formats) (pair : PropertyPair) : Option (List Char) :=
  formats.fieldText pair.2.1 pair.2.2.1 pair.1.2.2

def newText (formats : Formats) (pair : PropertyPair) : Option (List Char) :=
  formats.fieldText pair.2.1 pair.2.2.1 pair.2.2.2

/-- A loop over an indexed list that keeps some entries, whatever their indexes. -/
theorem filterMap_zipIdx {α β : Type} {f : α × Nat → Option β} {p : α → Bool} {g : α → β}
    {l : List α} {k : Nat}
    (h : ∀ entry ∈ l.zipIdx k, f entry = if p entry.1 then some (g entry.1) else none) :
    (l.zipIdx k).filterMap f = (l.filter p).map g := by
  induction l generalizing k with
  | nil => rfl
  | cons a l ih =>
    have first := h (a, k) List.mem_cons_self
    have rest := ih fun entry mem => h entry (List.mem_cons_of_mem _ mem)
    rw [List.zipIdx_cons, List.filterMap_cons, first, rest]
    cases keep : p a <;> simp [keep]

/-- The loop over the properties of both objects. -/
theorem extractAllFields_eq {old new : IsarReader}
    (length : old.properties.length = new.properties.length) :
    formats.extractAllFields new (some old) =
      ((old.properties.zip new.properties).filter fun pair =>
        formats.oldText pair ≠ formats.newText pair).map fun pair =>
          fieldChange pair.2.1 (formats.oldText pair) (formats.newText pair) := by
  have indexed : new.properties.zipIdx 1 =
      ((old.properties.zip new.properties).zipIdx 1).map (Prod.map Prod.snd id) := by
    rw [List.map_zipIdx, List.map_snd_zip length.ge]
  rw [extractAllFields, indexed, List.filterMap_map]
  refine filterMap_zipIdx fun entry mem => ?_
  obtain ⟨⟨⟨oldName, oldType, v⟩, name, t, w⟩, index⟩ := entry
  obtain ⟨first, place⟩ := List.mk_mem_zipIdx_iff_le_and_getElem?_sub.mp mem
  obtain ⟨placeOld, placeNew⟩ := List.getElem?_zip_eq_some.mp place
  have oldValue : old.value index = v := by
    rw [IsarReader.value, if_neg (by omega), placeOld]
    rfl
  have newValue : new.value index = w := by
    rw [IsarReader.value, if_neg (by omega), placeNew]
    rfl
  by_cases same : formats.fieldText name t v = formats.fieldText name t w <;>
    simp [oldValue, newValue, oldText, newText, same]

/-- The document of an object with properties is written without a panic. -/
theorem serializeIsarObject_isSome (faithful : formats.Faithful) {reader : IsarReader}
    (nonempty : reader.properties ≠ []) : (formats.serializeIsarObject reader).isSome := by
  unfold serializeIsarObject
  simp only
  split
  · rename_i value parsed
    have entries : formats.serializeProperties reader.properties ++
        idEntry reader.idName reader.id (reader.properties.map Prod.fst) ≠ [] := by
      rcases h : reader.properties with _ | ⟨⟨name, t, v⟩, properties⟩
      · exact absurd h nonempty
      · simp [serializeProperties]
    obtain ⟨map, rfl, filled⟩ := faithful.fromStr_object parsed entries
    simp only [createCleanFullDocument, List.isEmpty_eq_false_iff.mpr filled, Bool.false_eq_true,
      if_false]
    split <;> rfl
  · rfl

/-- The old and the new value differ. -/
def Changed (pair : PropertyPair) : Prop := pair.1.2.2 ≠ pair.2.2.2

open scoped Classical in
/-- An update is reported as it is: not at all if nothing has changed, and otherwise with the names
of what has changed, each with two different texts. -/
noncomputable def ReportsUpdate (old new : IsarReader) (result : Option (Option ChangeDetail)) :
    Prop :=
  let properties := old.properties.zip new.properties
  match result with
  | some none => ∀ pair ∈ properties, ¬ Changed pair
  | some (some detail) => (∃ pair ∈ properties, Changed pair) ∧
      detail.fieldChanges.map FieldChange.fieldName =
        (properties.filter fun pair => Changed pair).map (fun pair => pair.2.1) ∧
      ∀ change ∈ detail.fieldChanges, change.oldValue ≠ change.newValue
  | none => False

/-- If what is kept by `p` and by the weaker `q` has the same length, they keep the same. -/
theorem filter_eq_of_length {α : Type} {p q : α → Bool} {l : List α}
    (weaker : ∀ a, p a = true → q a = true)
    (h : (l.filter p).length = (l.filter q).length) : ∀ a ∈ l, q a = true → p a = true := by
  have same := (List.monotone_filter_right l fun a hp => weaker a hp).eq_of_length h
  intro a mem hq
  have kept : a ∈ l.filter q := List.mem_filter.mpr ⟨mem, hq⟩
  rw [← same] at kept
  exact (List.mem_filter.mp kept).2

theorem ofList_injective : Function.Injective (Option.map String.ofList) :=
  Option.map_injective fun _ _ h => String.ofList_injective h

/-- `detect_changes` reports an update as it is if and only if no property has changed between two
values with the same text. -/
theorem update_reported_iff (faithful : formats.Faithful) {schema : IsarSchema}
    {old new : IsarReader} (collectionName : String) (objectId : Int64)
    (hold : old.Of all schema) (hnew : new.Of all schema) :
    ReportsUpdate old new
        (formats.detectChanges collectionName objectId (some old) (some new)) ↔
      ∀ pair ∈ old.properties.zip new.properties, Changed pair →
        ¬ formats.Merged pair.2.1 pair.1.2.2 pair.2.2.2 := by
  classical
  obtain ⟨length, aligned⟩ := properties_aligned hold.2 hnew.2
  have text_eq_iff (pair) (mem : pair ∈ old.properties.zip new.properties) :
      formats.oldText pair = formats.newText pair ↔
        ¬ Changed pair ∨ formats.Merged pair.2.1 pair.1.2.2 pair.2.2.2 := by
    obtain ⟨-, -, target, hv, hw⟩ := aligned pair mem
    rw [Changed, not_not]
    exact fieldText_eq_iff faithful pair.2.1 hv hw
  have weaker (pair : PropertyPair) (differ : formats.oldText pair ≠ formats.newText pair) :
      Changed pair := fun same => differ (by rw [oldText, newText, same])
  have loop := formats.extractAllFields_eq length
  unfold detectChanges
  simp only [loop, List.isEmpty_map]
  by_cases nothing : ((old.properties.zip new.properties).filter fun pair =>
      formats.oldText pair ≠ formats.newText pair).isEmpty = true
  · -- All texts are the same.
    have texts (pair) (mem : pair ∈ old.properties.zip new.properties) :
        formats.oldText pair = formats.newText pair := by
      have none := List.filter_eq_nil_iff.mp (List.isEmpty_iff.mp nothing) pair mem
      simpa using none
    rw [if_pos nothing]
    constructor
    · intro same pair mem changed
      exact absurd changed (same pair mem)
    · intro distinct pair mem changed
      exact distinct pair mem changed (((text_eq_iff pair mem).mp (texts pair mem)).resolve_left
        (not_not_intro changed))
  · rw [if_neg nothing]
    obtain ⟨first, keeps⟩ := List.exists_mem_of_ne_nil _ (mt List.isEmpty_iff.mpr nothing)
    obtain ⟨mem, differs⟩ := List.mem_filter.mp keeps
    have nonempty : new.properties ≠ [] := by
      intro empty
      rw [empty, List.zip_nil_right] at mem
      cases mem
    obtain ⟨document, written⟩ := Option.isSome_iff_exists.mp
      (serializeIsarObject_isSome faithful nonempty)
    rw [written]
    simp only [Option.map_some, ReportsUpdate, changeDetail, List.map_map]
    constructor
    · intro ⟨_, names, _⟩ pair mem changed merged
      have lengths := congrArg List.length names
      rw [List.length_map, List.length_map] at lengths
      have differ := filter_eq_of_length (fun pair differ => decide_eq_true
        (weaker pair (of_decide_eq_true differ))) lengths pair mem (decide_eq_true changed)
      exact of_decide_eq_true differ ((text_eq_iff pair mem).mpr (Or.inr merged))
    · intro distinct
      have same : ((old.properties.zip new.properties).filter fun pair =>
          formats.oldText pair ≠ formats.newText pair) =
          (old.properties.zip new.properties).filter fun pair => Changed pair := by
        refine List.filter_congr fun pair mem => decide_eq_decide.mpr ⟨weaker pair, ?_⟩
        intro changed texts
        exact ((text_eq_iff pair mem).mp texts).elim (fun unchanged => unchanged changed)
          (distinct pair mem changed)
      refine ⟨⟨first, mem, weaker first (of_decide_eq_true differs)⟩, ?_, ?_⟩
      · rw [same]
        rfl
      · intro change reported
        obtain ⟨pair, kept, rfl⟩ := List.mem_map.mp reported
        have differ := of_decide_eq_true (List.mem_filter.mp kept).2
        exact fun texts => differ (ofList_injective texts)

end Formats

/-! ## Objects with a list -/

/-- A schema with a list of ints, and an object with a list. -/
def pollSchema : IsarSchema :=
  { name := "polls", idName := some "id", embedded := false
    properties := [{ name := some "votes", dataType := .intList, collection := none }]
    indexes := [], version := 0 }

def poll (votes : List Int32) : IsarReader :=
  { idName := some "id", id := 1
    properties := [("votes", .intList, .list (votes.map ReadValue.int))] }

/-- The document of the object with the votes 1 and 2, in the order of its keys. -/
def pollDocument : Json :=
  .object [("id", .number (.integer 1)),
    ("votes", .array [.number (.integer 1), .number (.integer 2)])]

/-- Floats written as their bits, and a parser of one document. -/
def bitFormats : Formats :=
  let plain : Formats :=
    { fromStr := fun _ => none
      ryuF32 := fun v => JsonText.integer v.bits.toNat
      ryuF64 := fun v => JsonText.integer v.bits.toNat
      displayF32 := fun v => decimal v.bits.toNat
      displayF64 := fun v => decimal v.bits.toNat }
  { plain with
    fromStr := fun s =>
      if s = text (plain.serialize (poll [1, 2])) then some pollDocument else none }

theorem bitFormats_faithful : bitFormats.Faithful := by
  have bits32 {v w : F32} (h : (v.bits.toNat : Int) = w.bits.toNat) : v = w := by
    cases v
    cases w
    exact congrArg F32.mk (UInt32.toNat_inj.mp (Int.ofNat_inj.mp h))
  have bits64 {v w : F64} (h : (v.bits.toNat : Int) = w.bits.toNat) : v = w := by
    cases v
    cases w
    exact congrArg F64.mk (UInt64.toNat_inj.mp (Int.ofNat_inj.mp h))
  refine ⟨fun _ _ h => bits32 (integer_injective h), fun _ _ h => bits64 (integer_injective h),
    fun _ _ h => bits32 (decimal_injective h), fun _ _ h => bits64 (decimal_injective h),
    ?_, ?_, ?_, ?_⟩
  · intro v
    exact Formats.brace_notMem_decimal (n := v.bits.toNat)
  · intro v
    exact Formats.brace_notMem_decimal (n := v.bits.toNat)
  · intro s map parsed
    simp only [bitFormats] at parsed
    split at parsed
    · rename_i same
      rw [same]
      exact List.mem_cons_self
    · cases parsed
  · intro entries value parsed _
    simp only [bitFormats] at parsed
    split at parsed <;> cases parsed
    exact ⟨_, rfl, List.cons_ne_nil _ _⟩

theorem poll_of_schema (votes : List Int32) (noNull : ∀ v ∈ votes, v ≠ nullInt) :
    (poll votes).Of [] pollSchema := by
  have elements : ElementsOf [] .int none (votes.map ReadValue.int) := by
    induction votes with
    | nil => trivial
    | cons v votes ih =>
      exact ⟨⟨rfl, noNull v List.mem_cons_self⟩,
        ih fun w mem => noNull w (List.mem_cons_of_mem _ mem)⟩
  exact ⟨rfl, _, [], rfl, rfl, ⟨_, rfl, elements⟩, rfl⟩

theorem poll_update_reported :
    Formats.ReportsUpdate (poll [1]) (poll [1, 2])
        (bitFormats.detectChanges "polls" 1 (some (poll [1])) (some (poll [1, 2]))) ↔
      ∀ pair ∈ (poll [1]).properties.zip (poll [1, 2]).properties, Formats.Changed pair →
        ¬ bitFormats.Merged pair.2.1 pair.1.2.2 pair.2.2.2 := by
  have one : (1 : Int32) ≠ nullInt := by decide
  have two : (2 : Int32) ≠ nullInt := by decide
  exact Formats.update_reported_iff bitFormats_faithful "polls" 1
    (poll_of_schema [1] (by simp [one])) (poll_of_schema [1, 2] (by simp [one, two]))

/-- A change of a list that keeps its length is not reported. -/
theorem list_update_dropped :
    bitFormats.detectChanges "polls" 1 (some (poll [1])) (some (poll [2])) = some none ∧
      ¬ Formats.ReportsUpdate (poll [1]) (poll [2]) (some none) := by
  refine ⟨rfl, fun unchanged => ?_⟩
  refine unchanged _ List.mem_cons_self fun same => ?_
  simp at same

end IsarPlus
