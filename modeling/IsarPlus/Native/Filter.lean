import IsarPlus.Core.FastWildMatch
import IsarPlus.Lib.Utf8
import IsarPlus.Native.Collection

/-!
# Filters of the native engine

`isar_core/src/native/query/native_filter.rs`. The macros there generate one filter on a property
and one on the elements of a list for each kind of value; here a `ValueTest` is what both do with
one value. `toLowercase` is `str::to_lowercase`. Evaluation is `none` where a read panics.
-/

namespace IsarPlus.Native
open ByteBuffer Scalar

/-- The order of `Option<bool>`. -/
def boolLe : Option Bool → Option Bool → Bool
  | none, _ => true
  | some _, none => false
  | some a, some b => !a || b

/-- The fields of the `…Between` and string conditions besides the offset. -/
inductive ValueTest where
  | bool (lower upper : Option Bool)
  | byte (lower upper : UInt8)
  | int (lower upper : Int32)
  | float (lower upper : F32)
  | long (lower upper : Int64)
  | double (lower upper : F64)
  | string (lower upper : Option Bytes) (caseSensitive : Bool)
  | stringEndsWith (value : Bytes) (caseSensitive : Bool)
  | stringContains (value : Bytes) (caseSensitive : Bool)
  | stringMatches (value : Bytes) (caseSensitive : Bool)
  deriving DecidableEq

/-- `Filter` (`native_filter.rs:205-240`). -/
inductive NativeFilter where
  | isNull (offset : Nat) (dataType : DataType)
  | idBetween (lower upper : Int64)
  | value (offset : Nat) (test : ValueTest)
  | any (offset : Nat) (test : ValueTest)
  | nested (offset : Nat) (filter : NativeFilter)
  | and (filters : List NativeFilter)
  | or (filters : List NativeFilter)
  | not (filter : NativeFilter)
  | stat (b : Bool)

/-! ## Construction -/

/-- `primitive_create!` and the choices in `string` and `string_filter_create!`: a condition on the
scalar type, on its list type, or the constant false. -/
def NativeFilter.create (p : NativeProperty) (scalar list : DataType) (test : ValueTest) :
    NativeFilter :=
  if p.dataType = scalar then .value p.offset test
  else if p.dataType = list then .any p.offset test
  else .stat false

section
variable (toLowercase : List Char → List Char)

/-- A string operand, lowercased unless the condition is case sensitive, as bytes
(`native_filter.rs:123-129`). -/
def stringToBytes (s : List Char) (caseSensitive : Bool) : Bytes :=
  Utf8.encode (if caseSensitive then s else toLowercase s)

/-- `NativeFilter::string` (`native_filter.rs:131-158`). -/
def NativeFilter.string (p : NativeProperty) (lower upper : Option (List Char))
    (caseSensitive : Bool) : NativeFilter :=
  .create p .string .stringList
    (.string (lower.map (stringToBytes toLowercase · caseSensitive))
      (upper.map (stringToBytes toLowercase · caseSensitive)) caseSensitive)

def NativeFilter.stringEndsWith (p : NativeProperty) (value : List Char) (caseSensitive : Bool) :
    NativeFilter :=
  .create p .string .stringList
    (.stringEndsWith (stringToBytes toLowercase value caseSensitive) caseSensitive)

def NativeFilter.stringContains (p : NativeProperty) (value : List Char) (caseSensitive : Bool) :
    NativeFilter :=
  .create p .string .stringList
    (.stringContains (stringToBytes toLowercase value caseSensitive) caseSensitive)

def NativeFilter.stringMatches (p : NativeProperty) (value : List Char) (caseSensitive : Bool) :
    NativeFilter :=
  .create p .string .stringList
    (.stringMatches (stringToBytes toLowercase value caseSensitive) caseSensitive)

/-- `NativeFilter::nested` (`native_filter.rs:184-194`). -/
def NativeFilter.nestedIn (p : NativeProperty) (filter : NativeFilter) : NativeFilter :=
  if p.dataType = .object then .nested p.offset filter else .stat false

/-! ## Evaluation -/

/-- The bytes that a string condition looks at: those of the lowercased string unless it is case
sensitive. -/
def comparedBytes (bytes : Bytes) (caseSensitive : Bool) : Option Bytes :=
  if caseSensitive then some bytes
  else (Utf8.decode bytes).map fun s => Utf8.encode (toLowercase s)

/-- `string_between` (`native_filter.rs:344-379`). -/
def stringBetween (value lower upper : Option Bytes) (caseSensitive : Bool) : Option Bool :=
  match value with
  | some bytes => do
    let bytes ← comparedBytes toLowercase bytes caseSensitive
    let aboveLower := match lower with
      | some lower => decide (lower ≤ bytes)
      | none => true
    let belowUpper := match upper with
      | some upper => decide (bytes ≤ upper)
      | none => false
    pure (aboveLower && belowUpper)
  | none => some lower.isNone

/-- The evaluation that `string_filter!` shares: null never matches. -/
def stringTest (test : Bytes → Option Bool) (value : Option Bytes) (caseSensitive : Bool) :
    Option Bool :=
  match value with
  | some bytes => do
    let bytes ← comparedBytes toLowercase bytes caseSensitive
    test bytes
  | none => some false

/-- `filter_between!` and `string_filter!` on the value at an offset. -/
def ValueTest.evaluate (object : IsarDeserializer) (offset : Nat) : ValueTest → Option Bool
  | .bool lower upper => (object.readBool offset).map fun v => boolLe lower v && boolLe v upper
  | .byte lower upper => (object.readByte offset).map fun v => decide (lower ≤ v ∧ v ≤ upper)
  | .int lower upper => (object.readInt offset).map fun v => decide (lower ≤ v ∧ v ≤ upper)
  | .float lower upper => (object.readFloat offset).map fun v =>
      (lower.le v || lower.isNan) && (v.le upper || v.isNan)
  | .long lower upper => (object.readLong offset).map fun v => decide (lower ≤ v ∧ v ≤ upper)
  | .double lower upper => (object.readDouble offset).map fun v =>
      (lower.le v || lower.isNan) && (v.le upper || v.isNan)
  | .string lower upper caseSensitive => do
      let value ← object.readString offset
      stringBetween toLowercase value lower upper caseSensitive
  | .stringEndsWith value caseSensitive => do
      let other ← object.readString offset
      stringTest toLowercase (fun bytes => some (value.isSuffixOf bytes)) other caseSensitive
  | .stringContains value caseSensitive => do
      let other ← object.readString offset
      stringTest toLowercase (fun bytes => some (decide (value <:+: bytes))) other caseSensitive
  | .stringMatches value caseSensitive => do
      let other ← object.readString offset
      stringTest toLowercase (fun bytes => fastWildMatch bytes value) other caseSensitive

/-- The type whose reads a test makes, for the stride in a list. -/
def ValueTest.dataType : ValueTest → DataType
  | .bool .. => .bool
  | .byte .. => .byte
  | .int .. => .int
  | .float .. => .float
  | .long .. => .long
  | .double .. => .double
  | .string .. | .stringEndsWith .. | .stringContains .. | .stringMatches .. => .string

/-- The loop of the `Any…` conditions over the elements of a list. -/
def ValueTest.evaluateAny (object : IsarDeserializer) (offset : Nat) (test : ValueTest) :
    Option Bool := do
  match ← object.readList offset test.dataType with
  | some (list, length) =>
    (List.range length).anyM fun i =>
      test.evaluate toLowercase list (i * test.dataType.staticSize)
  | none => pure false

mutual

/-- `evaluate` (`native_filter.rs:242-613`); a nested object is evaluated without an id. -/
def NativeFilter.evaluate (id : Int64) (object : IsarDeserializer) : NativeFilter → Option Bool
  | .isNull offset dataType => object.isNull offset dataType
  | .idBetween lower upper => some (decide (lower ≤ id ∧ id ≤ upper))
  | .value offset test => test.evaluate toLowercase object offset
  | .any offset test => test.evaluateAny toLowercase object offset
  | .nested offset filter => do
    match ← object.readNested offset with
    | some inner => filter.evaluate Int64.minValue inner
    | none => pure false
  | .and filters => NativeFilter.evaluateAll id object filters
  | .or filters => NativeFilter.evaluateSome id object filters
  | .not filter => (filter.evaluate id object).map Bool.not
  | .stat b => some b

/-- The loop of `AndCond`. -/
def NativeFilter.evaluateAll (id : Int64) (object : IsarDeserializer) :
    List NativeFilter → Option Bool
  | [] => some true
  | filter :: filters => do
    if ← filter.evaluate id object then NativeFilter.evaluateAll id object filters else pure false

/-- The loop of `OrCond`. -/
def NativeFilter.evaluateSome (id : Int64) (object : IsarDeserializer) :
    List NativeFilter → Option Bool
  | [] => some false
  | filter :: filters => do
    if ← filter.evaluate id object then pure true else NativeFilter.evaluateSome id object filters

end

end

end IsarPlus.Native
