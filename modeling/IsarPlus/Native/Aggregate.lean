import IsarPlus.Lib.FloatArithmetic
import IsarPlus.Native.Query

/-!
# Native aggregations

`isar_core/src/native/query/aggregate.rs` and `NativeQuery::aggregate` (`query/mod.rs:78-103`). A
release build adds without a check for overflow, a debug build panics. A result is `none` where the
code panics and `some none` where it returns `None`.
-/

namespace IsarPlus.Native
open ByteBuffer Scalar

/-- `Aggregation` (`core/instance.rs:173-180`). -/
inductive Aggregation where
  | count | isEmpty | min | max | sum | average
  deriving DecidableEq, Repr

/-- A string of an object, whose bytes are UTF-8. -/
def IsarDeserializer.readStr (object : IsarDeserializer) (offset : Nat) :
    Option (Option (List Char)) := do
  match ← object.readString offset with
  | some bytes => (Utf8.decode bytes).map some
  | none => pure none

/-- The value that is read of every object. -/
def readAll {α : Type} (objects : List QueryObject) (read : IsarDeserializer → Option α) :
    Option (List α) :=
  objects.mapM fun o => read o.2

/-! ## Minimum and maximum -/

/-- What `aggregate_min_max` has for one type: the check for null, the comparison, the values that
the minimum and the maximum start from and the result. -/
structure MinMaxType (α : Type) where
  isValue : α → Bool
  compare : α → α → Option Ordering
  minStart : α
  maxStart : α
  toValue : α → IsarValue

/-- `min_max_cmp` (`aggregate.rs:113-117`). -/
def minMaxCmp (aggregateMin : Bool) : Ordering := if aggregateMin then .lt else .gt

namespace MinMaxType

variable {α : Type} (T : MinMaxType α)

def start (aggregateMin : Bool) : α := if aggregateMin then T.minStart else T.maxStart

/-- The value replaces the one that has been found so far. -/
def improves (aggregateMin : Bool) (value minMax : α) : Bool :=
  T.isValue value && T.compare value minMax == some (minMaxCmp aggregateMin)

/-- The loop over the values. -/
def loop (aggregateMin : Bool) (values : List α) : α × Bool :=
  values.foldl (fun (minMax, hasValue) value =>
    if T.improves aggregateMin value minMax then (value, true) else (minMax, hasValue))
    (T.start aggregateMin, false)

def minMax (aggregateMin : Bool) (values : List α) : Option IsarValue :=
  let (minMax, hasValue) := T.loop aggregateMin values
  if hasValue then some (T.toValue minMax) else none

end MinMaxType

/-- `aggregate.rs:121-137`. -/
def byteMinMax : MinMaxType UInt8 where
  isValue _ := true
  compare a b := some (cmp a.toNat b.toNat)
  minStart := 255
  maxStart := 0
  toValue v := .integer (Int64.ofInt v.toNat)

/-- `aggregate.rs:138-153`. -/
def intMinMax : MinMaxType Int32 where
  isValue v := v ≠ nullInt
  compare a b := some (cmp a.toInt b.toInt)
  minStart := Int32.maxValue
  maxStart := Int32.minValue
  toValue v := .integer v.toInt64

/-- `aggregate.rs:154-173`. -/
def floatMinMax : MinMaxType F32 where
  isValue _ := true
  compare a b := a.partialCmp b
  minStart := F32.infinity
  maxStart := F32.negInfinity
  toValue v := .real v.toF64

/-- `aggregate.rs:174-189`, and `:234-246` for the id. -/
def longMinMax : MinMaxType Int64 where
  isValue v := v ≠ nullLong
  compare a b := some (cmp a.toInt b.toInt)
  minStart := Int64.maxValue
  maxStart := Int64.minValue
  toValue v := .integer v

/-- `aggregate.rs:190-209`. -/
def doubleMinMax : MinMaxType F64 where
  isValue _ := true
  compare a b := a.partialCmp b
  minStart := F64.infinity
  maxStart := F64.negInfinity
  toValue v := .real v

/-- `aggregate.rs:210-231`; strings compare by their bytes. -/
def stringMinMax : MinMaxType (List Char) where
  isValue _ := true
  compare a b := some (cmp (Utf8.encode a) (Utf8.encode b))
  minStart := [Char.ofNat 0x10ffff]
  maxStart := []
  toValue v := .string v

/-- `aggregate_min_max` (`aggregate.rs:108-248`). -/
def aggregateMinMax (objects : List QueryObject) (property : Option NativeProperty)
    (aggregateMin : Bool) : Option (Option IsarValue) :=
  match property with
  | some p =>
    match p.dataType with
    | .byte => (readAll objects (·.readByte p.offset)).map (byteMinMax.minMax aggregateMin)
    | .int => (readAll objects (·.readInt p.offset)).map (intMinMax.minMax aggregateMin)
    | .float =>
      (readAll objects (·.readFloat p.offset)).map (floatMinMax.minMax aggregateMin)
    | .long => (readAll objects (·.readLong p.offset)).map (longMinMax.minMax aggregateMin)
    | .double =>
      (readAll objects (·.readDouble p.offset)).map (doubleMinMax.minMax aggregateMin)
    | .string => (readAll objects (·.readStr p.offset)).map fun values =>
        stringMinMax.minMax aggregateMin values.reduceOption
    | _ => some none
  | none => some (longMinMax.minMax aggregateMin (objects.map Prod.fst))

/-! ## Sum and average -/

/-- `+=` on an `i64`. -/
def addI64 (overflowChecks : Bool) (a b : Int64) : Option Int64 :=
  if overflowChecks && !decide (-2 ^ 63 ≤ a.toInt + b.toInt ∧ a.toInt + b.toInt < 2 ^ 63) then none
  else some (a + b)

/-- The loops of the integer types over the values that are not null, with what they have summed
and counted so far. -/
def sumIntegersFrom (overflowChecks : Bool) (sum : Int64) (count : Nat) :
    List Int64 → Option (Int64 × Nat)
  | [] => some (sum, count)
  | value :: values => do
    let sum ← addI64 overflowChecks sum value
    sumIntegersFrom overflowChecks sum (count + 1) values

def sumIntegers (overflowChecks : Bool) (values : List Int64) : Option (Int64 × Nat) :=
  sumIntegersFrom overflowChecks 0 0 values

/-- `aggregate.rs:48-54` and `:98-104`. -/
def integerResult (aggregateSum : Bool) : Int64 × Nat → IsarValue
  | (sum, count) =>
    if aggregateSum then .integer sum
    else if 0 < count then .real ((F64.ofInt sum.toInt).div (F64.ofInt count))
    else .real F64.nan

/-- The loops of the float types over the values that are not null. -/
def sumReals (values : List F64) : F64 × Nat :=
  values.foldl (fun (sum, count) value => (sum.add value, count + 1)) (F64.ofInt 0, 0)

/-- `aggregate.rs:80-86`. -/
def realResult (aggregateSum : Bool) : F64 × Nat → IsarValue
  | (sum, count) =>
    if aggregateSum then .real sum
    else if 0 < count then .real (sum.div (F64.ofInt count))
    else .real F64.nan

/-- `aggregate_sum_average` (`aggregate.rs:8-106`). -/
def aggregateSumAverage (overflowChecks : Bool) (objects : List QueryObject)
    (property : Option NativeProperty) (aggregateSum : Bool) : Option (Option IsarValue) := do
  match property with
  | some p =>
    match p.dataType with
    | .byte =>
      let values ← readAll objects (·.readByte p.offset)
      let sum ← sumIntegers overflowChecks (values.map fun v => Int64.ofInt v.toNat)
      pure (some (integerResult aggregateSum sum))
    | .int =>
      let values ← readAll objects (·.readInt p.offset)
      let sum ← sumIntegers overflowChecks ((values.filter (· ≠ nullInt)).map Int32.toInt64)
      pure (some (integerResult aggregateSum sum))
    | .long =>
      let values ← readAll objects (·.readLong p.offset)
      let sum ← sumIntegers overflowChecks (values.filter (· ≠ nullLong))
      pure (some (integerResult aggregateSum sum))
    | .float =>
      let values ← readAll objects (·.readFloat p.offset)
      pure (some (realResult aggregateSum
        (sumReals ((values.filter fun v => !v.isNan).map F32.toF64))))
    | .double =>
      let values ← readAll objects (·.readDouble p.offset)
      pure (some (realResult aggregateSum (sumReals (values.filter fun v => !v.isNan))))
    | _ => pure none
  | none =>
    let sum ← sumIntegers overflowChecks ((objects.map Prod.fst).filter (· ≠ nullLong))
    pure (some (integerResult aggregateSum sum))

section
variable (toLowercase : List Char → List Char) (xxh3_64_with_seed : Bytes → UInt64 → UInt64)
  (sortUnstableBy : (QueryObject → QueryObject → Ordering) → List QueryObject →
    List QueryObject)

/-- `NativeQuery::aggregate` (`query/mod.rs:78-103`); without a property it is about the ids. -/
def NativeQuery.aggregate (overflowChecks : Bool) (query : NativeQuery) (txn : NativeTxn)
    (c : NativeCollection) (aggregation : Aggregation) (propertyIndex : Option UInt16) :
    Option (Option IsarValue) := do
  let property := propertyIndex.bind c.getProperty
  let objects ← query.results toLowercase xxh3_64_with_seed sortUnstableBy txn c true 0 0xffffffff
  match aggregation with
  | .min => aggregateMinMax objects property true
  | .max => aggregateMinMax objects property false
  | .sum => aggregateSumAverage overflowChecks objects property true
  | .average => aggregateSumAverage overflowChecks objects property false
  | .count => pure (some (.integer (Int64.ofNat objects.length)))
  | .isEmpty => pure (some (.bool objects.isEmpty))

end

end IsarPlus.Native
