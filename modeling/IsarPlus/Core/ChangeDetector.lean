import IsarPlus.Core.Reader
import IsarPlus.Core.Watcher

/-!
# Change detection

`isar_core/src/core/change_detector.rs`: what detailed watchers are told of a change, from the
readers of the old and the new object or from their JSON. A result is `none` where the code panics
and `some none` where it returns `None`.
-/

namespace IsarPlus
open Scalar JsonText

namespace Formats

variable (formats : Formats)

/-- `to_string` of a JSON value. -/
def toString (value : Json) : List Char := text (formats.docOf value)

/-! ## Values of fields -/

/-- `extract_inner_json_value` (`change_detector.rs:170-186`). -/
def extractInnerJsonValue (jsonStr : List Char) : List Char :=
  match formats.fromStr jsonStr with
  | some (.object map) => match map.lookup "value" with
    | some (.string s) => s
    | some innerValue => formats.toString innerValue
    | none => jsonStr
  | _ => jsonStr

/-- `process_field_value` (`change_detector.rs:159-167`). -/
def processFieldValue (fieldName : String) (value : Option (List Char)) : Option (List Char) :=
  value.map fun val => if fieldName = "value" then formats.extractInnerJsonValue val else val

/-- `read_field_value`, `read_object_field` and `read_list_field`
(`change_detector.rs:211-265`). -/
def readFieldValue (v : ReadValue) (t : DataType) : Option (List Char) :=
  if v.isNull then none
  else match t with
    | .bool => v.readBool.map fun value =>
        if value then ['t', 'r', 'u', 'e'] else ['f', 'a', 'l', 's', 'e']
    | .byte => some (decimal v.readByte.toNat)
    | .int => if v.readInt ≠ nullInt then some (decimal v.readInt.toInt) else none
    | .float => if v.readFloat.isFinite then some (formats.displayF32 v.readFloat) else none
    | .long => if v.readLong ≠ nullLong then some (decimal v.readLong.toInt) else none
    | .double => if v.readDouble.isFinite then some (formats.displayF64 v.readDouble) else none
    | .string | .json => v.readString
    | .object => v.readObject.map fun reader => text (formats.serialize reader)
    | _ => v.readList.map fun elements =>
        ['[', 'l', 'i', 's', 't', ':'] ++ decimal elements.length ++ [']']

/-- The text of a property of an object as it is compared. -/
def fieldText (fieldName : String) (t : DataType) (v : ReadValue) : Option (List Char) :=
  formats.processFieldValue fieldName (formats.readFieldValue v t)

def fieldChange (fieldName : String) (oldValue newValue : Option (List Char)) : FieldChange :=
  { fieldName, oldValue := oldValue.map String.ofList, newValue := newValue.map String.ofList }

/-! ## Documents -/

/-- `extract_nested_value` (`change_detector.rs:458-490`). -/
def extractNestedValue (valueField : Json) : List Char :=
  match valueField with
  | .object map => match map.lookup "value" with
    | some innerValue => formats.toString innerValue
    | none => formats.toString valueField
  | .string s => match formats.fromStr s with
    | some (.object map) => match map.lookup "value" with
      | some innerValue => formats.toString innerValue
      | none => s
    | _ => s
  | _ => formats.toString valueField

/-- What becomes of an entry of a document (`change_detector.rs:423-444`). -/
def cleanValue (key : String) (value : Json) : Json :=
  if key = "value" then
    match value with
    | .string s => (formats.fromStr s).getD value
    | .object map => (map.lookup "value").getD value
    | _ => value
  else value

/-- `create_clean_full_document` (`change_detector.rs:402-456`). -/
def createCleanFullDocument (object : Json) : Option (List Char) :=
  match object with
  | .object map =>
    if map.isEmpty then none
    else match map.lookup "typeId", map.lookup "key", map.lookup "value" with
      | some _, some _, some valueField => some (formats.extractNestedValue valueField)
      | _, _, _ => some (formats.toString
          (.object (map.map fun entry => (entry.1, formats.cleanValue entry.1 entry.2))))
  | .null => none
  | _ => some (formats.toString object)

/-- `serialize_isar_object` (`change_detector.rs:189-208`). -/
def serializeIsarObject (reader : IsarReader) : Option (List Char) :=
  let jsonStr := text (formats.serialize reader)
  match formats.fromStr jsonStr with
  | some jsonValue => formats.createCleanFullDocument jsonValue
  | none => some jsonStr

/-! ## Readers -/

/-- `extract_all_fields` (`change_detector.rs:104-138`). -/
def extractAllFields (newObject : IsarReader) (oldObject : Option IsarReader) :
    List FieldChange :=
  (newObject.properties.zipIdx 1).filterMap fun ((fieldName, t, _), fieldIndex) =>
    let newValue := formats.fieldText fieldName t (newObject.value fieldIndex)
    match oldObject with
    | some oldObject =>
      let oldValue := formats.fieldText fieldName t (oldObject.value fieldIndex)
      if oldValue ≠ newValue then some (fieldChange fieldName oldValue newValue) else none
    | none => if newValue.isSome then some (fieldChange fieldName none newValue) else none

/-- `extract_field_changes_for_delete` (`change_detector.rs:140-157`). -/
def extractFieldChangesForDelete (oldObject : IsarReader) : List FieldChange :=
  (oldObject.properties.zipIdx 1).filterMap fun ((fieldName, t, _), fieldIndex) =>
    let oldValue := formats.fieldText fieldName t (oldObject.value fieldIndex)
    if oldValue.isSome then some (fieldChange fieldName oldValue none) else none

section
variable (collectionName : String) (objectId : Int64)

/-- The detail of a change with its document. -/
def changeDetail (changeType : ChangeType) (fieldChanges : List FieldChange)
    (fullDocument : List Char) : ChangeDetail :=
  { changeType, collectionName, objectId, fieldChanges
    fullDocument := String.ofList fullDocument }

/-- `detect_changes` (`change_detector.rs:14-26`, `:46-102`). -/
def detectChanges (oldObject newObject : Option IsarReader) : Option (Option ChangeDetail) :=
  let detail := changeDetail collectionName objectId
  match oldObject, newObject with
  | none, some newObject =>
    let fieldChanges := formats.extractAllFields newObject none
    (formats.serializeIsarObject newObject).map fun document =>
      some (detail .insert fieldChanges document)
  | some oldObject, none =>
    let fieldChanges := formats.extractFieldChangesForDelete oldObject
    (formats.serializeIsarObject oldObject).map fun document =>
      some (detail .delete fieldChanges document)
  | some oldObject, some newObject =>
    let fieldChanges := formats.extractAllFields newObject (some oldObject)
    if fieldChanges.isEmpty then some none
    else (formats.serializeIsarObject newObject).map fun document =>
      some (detail .update fieldChanges document)
  | none, none => some none

/-! ## JSON objects -/

/-- `process_json_field_value` (`change_detector.rs:493-506`). -/
def processJsonFieldValue (fieldName : String) (value : Json) : List Char :=
  match value with
  | .string s => if fieldName = "value" then formats.extractInnerJsonValue s else s
  | _ => formats.toString value

/-- The entries of a JSON object; other values have none. -/
def jsonFields : Json → List (String × Json)
  | .object map => map
  | _ => []

/-- `extract_json_field_changes` (`change_detector.rs:361-386`); the order of the names is that of a
hash set, which nothing here depends on. -/
def extractJsonFieldChanges (oldObject newObject : Json) : List FieldChange :=
  let allFields := ((jsonFields oldObject).map Prod.fst ++
    (jsonFields newObject).map Prod.fst).eraseDups
  allFields.filterMap fun fieldName =>
    let text (object : Json) :=
      ((jsonFields object).lookup fieldName).map (formats.processJsonFieldValue fieldName)
    let oldValue := text oldObject
    let newValue := text newObject
    if oldValue ≠ newValue then some (fieldChange fieldName oldValue newValue) else none

/-- `detect_changes_from_json` (`change_detector.rs:31-43`, `:269-359`). -/
def detectChangesFromJson (oldJson newJson : Option Json) : Option (Option ChangeDetail) :=
  let detail := changeDetail collectionName objectId
  let fieldText (entry : String × Json) := some (formats.processJsonFieldValue entry.1 entry.2)
  match oldJson, newJson with
  | none, some newObject =>
    let fieldChanges := (jsonFields newObject).map fun entry =>
      fieldChange entry.1 none (fieldText entry)
    (formats.createCleanFullDocument newObject).map fun document =>
      some (detail .insert fieldChanges document)
  | some oldObject, none =>
    let fieldChanges := (jsonFields oldObject).map fun entry =>
      fieldChange entry.1 (fieldText entry) none
    (formats.createCleanFullDocument oldObject).map fun document =>
      some (detail .delete fieldChanges document)
  | some oldObject, some newObject =>
    let fieldChanges := formats.extractJsonFieldChanges oldObject newObject
    if fieldChanges.isEmpty then some none
    else (formats.createCleanFullDocument newObject).map fun document =>
      some (detail .update fieldChanges document)
  | none, none => some none

end

end Formats

end IsarPlus
