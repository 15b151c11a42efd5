import IsarPlus.Core.Error
import IsarPlus.Core.Reader

/-!
# JSON import

`isar_core/src/core/de.rs` with the trait `IsarWriter` (`core/writer.rs`) that it writes to. What
`serde_json` finds in a text is a tree in which numbers, strings, lists and objects keep their own
text; the texts of its errors are parameters.
-/

namespace Scalar

/-- `v as f32` of an integer of at most 64 bits. -/
def F32.ofInt (v : Int) : F32 :=
  let m := v.natAbs
  let digits := Nat.log2 m
  let mag :=
    if m = 0 then 0
    else (digits + 127) * 2 ^ 23 +
      (if digits ≤ 23 then m * 2 ^ (23 - digits) else roundShift m (digits - 23)) - 2 ^ 23
  ⟨UInt32.ofNat (if v < 0 then 2 ^ 31 + mag else mag)⟩

example : F32.ofInt (-3) = ⟨0xc0400000⟩ := by decide +kernel
example : F32.ofInt (2 ^ 24 + 1) = ⟨0x4b800000⟩ := by decide +kernel

end Scalar

namespace IsarPlus
open Scalar

/-- Display of an error (`core/error.rs:7-74`). -/
def IsarError.display : IsarError → String
  | .pathError =>
    "No such file or directory. Please make sure that the provided path is valid."
  | .writeTxnRequired => "Write transaction required."
  | .schemaError message => "Schema error: " ++ message
  | .versionError => "Isar version of the file is too new or too old to be used."
  | .unsupportedOperation =>
    "Operation not supported. You might need to use a different flavor of Isar."
  | .objectLimitReached => "Object limit reached."
  | .insertIncomplete => "Object insert incomplete."
  | .instanceMismatch =>
    "Instance mismatch. Make sure to use resources with the correct instance."
  | .transactionClosed => "Transaction closed."
  | .idNotFound => "Id not found."
  | .unknownProperty => "Unknown propery."
  | .transactionActive => "Transaction already active."
  | .illegalString => "Illegal String."
  | .illegalArgument => "Illegal Argument."
  | .jsonError message => "Json Error: " ++ message
  | .encryptionError =>
    "Encryption Error. Please make sure to use the correct encryption key."
  | .dbFull => "The database is full."
  | .dbCorrupted => "DbCorrupted"
  | .dbError code message => "DbError (" ++ toString code.toInt ++ "): " ++ message

/-! ## Documents -/

/-- A JSON document as it is read, with the texts that `RawValue` gives. -/
inductive Source where
  | null
  | bool (value : Bool)
  | number (raw : List Char) (value : JsonNumber)
  | string (raw value : List Char)
  | array (raw : List Char) (elements : List Source)
  | object (raw : List Char) (entries : List (String × Source))

namespace Source

/-- `RawValue::get`. -/
def raw : Source → List Char
  | null => ['n', 'u', 'l', 'l']
  | bool true => ['t', 'r', 'u', 'e']
  | bool false => ['f', 'a', 'l', 's', 'e']
  | number raw _ => raw
  | string raw _ => raw
  | array raw _ => raw
  | object raw _ => raw

/-! Values of the types that are read (`Deserialize` of `serde`): integers have to be in range, and
floats may be written as integers. -/

def asBool : Source → Option Bool
  | bool value => some value
  | _ => none

def asU8 : Source → Option UInt8
  | number _ (.integer value) =>
    if 0 ≤ value ∧ value < 2 ^ 8 then some (UInt8.ofNat value.toNat) else none
  | _ => none

def asI32 : Source → Option Int32
  | number _ (.integer value) =>
    if -2 ^ 31 ≤ value ∧ value < 2 ^ 31 then some (Int32.ofInt value) else none
  | _ => none

def asI64 : Source → Option Int64
  | number _ (.integer value) =>
    if -2 ^ 63 ≤ value ∧ value < 2 ^ 63 then some (Int64.ofInt value) else none
  | _ => none

def asF32 : Source → Option F32
  | number _ (.integer value) => some (F32.ofInt value)
  | number _ (.real value) => some value.toF32
  | _ => none

def asF64 : Source → Option F64
  | number _ value => some value.asF64
  | _ => none

def asStr : Source → Option (List Char)
  | string _ value => some value
  | _ => none

/-! ### Written documents -/

section
open JsonText
variable (number : Numeral → JsonNumber)

mutual

/-- What is read of the text of a document, where numbers are read as `number` says. -/
def ofDoc : Doc → Source
  | .null => .null
  | .bool value => .bool value
  | .number value => .number value.token (number value)
  | .string value => .string (stringText value) value
  | .array values => .array (text (.array values)) (ofDocs values)
  | .object entries => .object (text (.object entries)) (ofEntries entries)

def ofDocs : List Doc → List Source
  | [] => []
  | value :: values => ofDoc value :: ofDocs values

def ofEntries : List (List Char × Doc) → List (String × Source)
  | [] => []
  | (key, value) :: entries => (String.ofList key, ofDoc value) :: ofEntries entries

end

theorem raw_ofDoc (doc : Doc) : (ofDoc number doc).raw = text doc := by
  cases doc with
  | bool value => cases value <;> rfl
  | array values => cases values <;> rfl
  | object entries => cases entries <;> rfl
  | _ => rfl

end

end Source

/-- The errors of `serde_json`: what it says of a value that is not what was expected, and of an
error that is none of its own. -/
structure JsonMessages where
  invalidType : Source → String → String
  custom : String → String

namespace JsonMessages

variable (messages : JsonMessages)

/-- `Error::custom` of an error, seen as the error that it ends up in. -/
def wrap {α : Type} : Result α → Result α
  | .error (.error e) => fail (.jsonError (messages.custom e.display))
  | x => x

/-- `Error::custom` of an error of `serde_json` itself. -/
def nest {α : Type} : Result α → Result α
  | .error (.error (.jsonError message)) => fail (.jsonError (messages.custom message))
  | x => x

def read {α : Type} (as : Source → Option α) (expected : String) (source : Source) : Result α :=
  match as source with
  | some value => .ok value
  | none => fail (.jsonError (messages.invalidType source expected))

/-- An `Option`: null is `None`. -/
def readOption {α : Type} (as : Source → Option α) (expected : String) :
    Source → Result (Option α)
  | .null => .ok none
  | source => (messages.read as expected source).map some

/-- An `Option<Vec<Option<T>>>`. -/
def readList {α : Type} (as : Source → Option α) (expected : String) :
    Source → Result (Option (List (Option α)))
  | .null => .ok none
  | .array _ elements => (elements.mapM (messages.readOption as expected)).map some
  | source => fail (.jsonError (messages.invalidType source "a sequence"))

end JsonMessages

/-! ## Writers -/

/-- The trait `IsarWriter` (`core/writer.rs`): a call hands on the writer, and panics as a `Result`
does. -/
class IsarWriter (ω : Type) where
  idName : ω → Option String
  properties : ω → List (String × DataType)
  writeNull : ω → UInt32 → Result ω
  writeBool : ω → UInt32 → Bool → Result ω
  writeByte : ω → UInt32 → UInt8 → Result ω
  writeInt : ω → UInt32 → Int32 → Result ω
  writeFloat : ω → UInt32 → F32 → Result ω
  writeLong : ω → UInt32 → Int64 → Result ω
  writeDouble : ω → UInt32 → F64 → Result ω
  writeString : ω → UInt32 → List Char → Result ω
  beginObject : ω → UInt32 → Result (ω × Option ω)
  endObject : ω → ω → ω
  beginList : ω → UInt32 → UInt32 → Result (ω × Option ω)
  endList : ω → ω → ω

/-- `expecting` (`de.rs:145-147`). -/
def visitorExpects : String := "a map containing object properties"

section
variable {ω : Type} [IsarWriter ω] (messages : JsonMessages) (strToId : List Char → Int64)
open IsarWriter

/-- A value that may be null. -/
def writeOption {α : Type} (writer : ω) (index : UInt32) (write : ω → UInt32 → α → Result ω) :
    Option α → Result ω
  | some value => write writer index value
  | none => writeNull writer index

/-- `write_scalar!` (`de.rs:130-138`). -/
def writeScalar {α : Type} (writer : ω) (index : UInt32) (write : ω → UInt32 → α → Result ω)
    (value : Result (Option α)) : Result ω := do
  let value ← value
  writeOption writer index write value

/-- The loop over the elements of a list. -/
def writeElements {α : Type} (write : ω → UInt32 → α → Result ω) (listWriter : ω) (i : Nat) :
    List (Option α) → Result ω
  | [] => .ok listWriter
  | value :: list => do
    let listWriter ← writeOption listWriter (UInt32.ofNat i) write value
    writeElements write listWriter (i + 1) list

/-- What is done to the writer that `begin_object` or `begin_list` returns, if it returns one. -/
def fillNested (begun : Result (ω × Option ω)) (fill : ω → Result ω) (end_ : ω → ω → ω) :
    Result ω := do
  let begun ← begun
  match begun.2 with
  | none => pure begun.1
  | some nested =>
    let nested ← fill nested
    pure (end_ begun.1 nested)

/-- `unwrap` of the writer that `begin_object` returns. -/
def unwrapNested (begun : Result (ω × Option ω)) : Result (ω × Option ω) := do
  let begun ← begun
  if begun.2.isSome then pure begun else .error .panic

/-- `write_list!` (`de.rs:110-127`). -/
def writeList {α : Type} (writer : ω) (index : UInt32) (write : ω → UInt32 → α → Result ω)
    (list : Result (Option (List (Option α)))) : Result ω := do
  let list ← list
  match list with
  | none => pure writer
  | some list =>
    fillNested (beginList writer index (UInt32.ofNat list.length))
      (fun listWriter => writeElements write listWriter 0 list) endList

/-- A string, if there is one (`de.rs:171-180`, `:182-187`). -/
def writeText (writer : ω) (index : UInt32) (value : Result (Option (List Char))) : Result ω := do
  let value ← value
  match value with
  | some value => writeString writer index value
  | none => pure writer

/-- The property of a key; the id is no property, so that the first one has the index one. -/
def findProperty (writer : ω) (key : String) : Option (Nat × DataType) :=
  ((properties writer).zipIdx.find? fun p => p.1.1 == key).map fun p => (p.2 + 1, p.1.2)

/-- The arms of all types on a value that is written without a nested visit (`de.rs:163-244`). -/
def visitFlat (writer : ω) (index : UInt32) (t : DataType) (source : Source) : Result ω :=
  let option {α : Type} (as : Source → Option α) (expected : String) : Result (Option α) :=
    messages.readOption as expected source
  let list {α : Type} (as : Source → Option α) (expected : String) :
      Result (Option (List (Option α))) := messages.readList as expected source
  match t with
  | .bool => writeScalar writer index writeBool (option Source.asBool "a boolean")
  | .byte => writeScalar writer index writeByte (option Source.asU8 "u8")
  | .int => writeScalar writer index writeInt (option Source.asI32 "i32")
  | .float => writeScalar writer index writeFloat (option Source.asF32 "f32")
  | .long => writeScalar writer index writeLong (option Source.asI64 "i64")
  | .double => writeScalar writer index writeDouble (option Source.asF64 "f64")
  | .string => writeText writer index (option Source.asStr "a string")
  | .json => writeText writer index (option (fun source => some source.raw) "any valid JSON value")
  | .object => match source with
    | .null => pure writer
    | source => fillNested (beginObject writer index)
      (fun _ => messages.nest (fail (.jsonError (messages.invalidType source visitorExpects))))
      endObject
  | .boolList => writeList writer index writeBool (list Source.asBool "a boolean")
  | .byteList => writeList writer index writeByte (list Source.asU8 "u8")
  | .intList => writeList writer index writeInt (list Source.asI32 "i32")
  | .floatList => writeList writer index writeFloat (list Source.asF32 "f32")
  | .longList => writeList writer index writeLong (list Source.asI64 "i64")
  | .doubleList => writeList writer index writeDouble (list Source.asF64 "f64")
  | .stringList => writeList writer index writeString (list Source.asStr "a string")
  | .objectList => match source with
    | .null => pure writer
    | source => fail (.jsonError (messages.invalidType source "a sequence"))

/-- The id after the value of a key: that of a string under the name of the id. -/
def visitedId (writer : ω) (key : String) (t : DataType) (id : Option Int64) (source : Source) :
    Option Int64 :=
  if t = .string ∧ idName writer = some key then
    match source.asStr with
    | some value => some (strToId value)
    | none => id
  else id

mutual

/-- What is written for the value of a property. -/
def visitProperty (writer : ω) (index : UInt32) (t : DataType) : Source → Result ω
  | .object raw entries =>
    if t = .object then
      fillNested (beginObject writer index)
        (fun objectWriter => (messages.nest (visitMap objectWriter none entries)).map Prod.snd)
        endObject
    else visitFlat messages writer index t (.object raw entries)
  | .array raw elements =>
    if t = .objectList then
      fillNested (beginList writer index (UInt32.ofNat elements.length))
        (fun listWriter => visitObjects listWriter 0 elements) endList
    else visitFlat messages writer index t (.array raw elements)
  | source => visitFlat messages writer index t source

/-- The elements of a list of objects (`de.rs:222-241`). -/
def visitObjects (listWriter : ω) (i : Nat) : List Source → Result ω
  | [] => .ok listWriter
  | .null :: elements => do
    let listWriter ← writeNull listWriter (UInt32.ofNat i)
    visitObjects listWriter (i + 1) elements
  | .object _ entries :: elements => do
    let listWriter ← fillNested (unwrapNested (beginObject listWriter (UInt32.ofNat i)))
      (fun objectWriter => (messages.nest (visitMap objectWriter none entries)).map Prod.snd)
      endObject
    visitObjects listWriter (i + 1) elements
  | source :: elements => do
    let listWriter ← fillNested (unwrapNested (beginObject listWriter (UInt32.ofNat i)))
      (fun _ => messages.nest (fail (.jsonError (messages.invalidType source visitorExpects))))
      endObject
    visitObjects listWriter (i + 1) elements

/-- `visit_map` (`de.rs:149-252`): the id that was found and the writer behind it. -/
def visitMap (writer : ω) (id : Option Int64) :
    List (String × Source) → Result (Option Int64 × ω)
  | [] => .ok (id, writer)
  | (key, source) :: entries =>
    match findProperty writer key with
    | some (index, t) => do
      let written ← visitProperty writer (UInt32.ofNat index) t source
      visitMap written (visitedId strToId writer key t id source) entries
    | none =>
      if idName writer = some key then do
        let value ← messages.read Source.asI64 "i64" source
        visitMap writer (some value) entries
      else visitMap writer id entries

end

/-! ## Imports -/

/-- `IsarInstance::insert` and the trait `IsarInsert` for one collection; an insert is a writer
besides. -/
structure Inserts (τ ω ι : Type) where
  insert : τ → UInt32 → Result ι
  writer : ι → ω
  written : ι → ω → ι
  save : ι → Int64 → Result ι
  finish : ι → Result τ

namespace Inserts

variable {τ ι : Type} (inserts : Inserts τ ω ι)

/-- One turn of the loop of `import` (`de.rs:39-58`). -/
def importObject (insert : ι) : Source → Result ι
  | .object _ entries => do
    let visited ← visitMap messages strToId (inserts.writer insert) none entries
    visited.1.elim (fail (.jsonError "Missing id property")) fun id =>
      inserts.save (inserts.written insert visited.2) id
  | source => fail (.jsonError (messages.invalidType source visitorExpects))

/-- `import` (`de.rs:32-63`). -/
def importObjects (txn : τ) (objects : List Source) : Result τ := do
  let insert ← inserts.insert txn (UInt32.ofNat objects.length)
  let insert ← objects.foldlM (importObject messages strToId inserts) insert
  inserts.finish insert

/-- `BULK_IMPORT_COUNT` (`de.rs:12`). -/
def bulkImportCount : Nat := 100

/-- `visit_seq` (`de.rs:75-93`) from the elements on that are still to come. -/
def visitSeq (txn : τ) (count : Nat) (buffer : List Source) :
    List Source → Result (τ × UInt32)
  | [] =>
    if buffer = [] then .ok (txn, UInt32.ofNat count)
    else do
      let txn ← messages.wrap (importObjects messages strToId inserts txn buffer)
      pure (txn, UInt32.ofNat (count + buffer.length))
  | next :: seq =>
    if bulkImportCount ≤ (buffer ++ [next]).length then do
      let txn ← messages.wrap (importObjects messages strToId inserts txn (buffer ++ [next]))
      visitSeq txn (count + (buffer ++ [next]).length) [] seq
    else visitSeq txn count (buffer ++ [next]) seq

/-- `import_json` (`core/instance.rs:132-149`). -/
def importJson (txn : τ) : Source → Result (τ × UInt32)
  | .array _ elements => visitSeq messages strToId inserts txn 0 [] elements
  | source => fail (.jsonError (messages.invalidType source "a list of objects"))

end Inserts

end

end IsarPlus
