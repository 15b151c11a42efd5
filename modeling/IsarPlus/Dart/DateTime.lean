import IsarPlus.Core.Data
import Mathlib.Data.Int.Order.Basic

/-!
# Dates

Where a `DateTime` becomes a number and a number a `DateTime`: the code that is generated for writing
and for reading a property (`serialize_generator.dart:83-88`, `deserialize_generator.dart:196-206`),
the values of filters and updates (`filter_builder.dart:142-162`) and the result of an aggregation
(`isar_query_impl.dart:170-204`).
-/

namespace IsarPlus.Dart
open Scalar

/-- A `DateTime`: an instant, at most 100,000,000 days from the epoch, in the local time zone or in
UTC. -/
structure DateTime where
  microsecondsSinceEpoch : Int
  isUtc : Bool
  inRange : microsecondsSinceEpoch.natAbs ≤ 8640000000000000000

namespace DateTime

def toUtc (d : DateTime) : DateTime := { d with isUtc := true }

def toLocal (d : DateTime) : DateTime := { d with isUtc := false }

/-- `DateTime.fromMicrosecondsSinceEpoch`, which throws a `RangeError`. -/
def fromMicrosecondsSinceEpoch (microseconds : Int) (isUtc : Bool) : Option DateTime :=
  if inRange : microseconds.natAbs ≤ 8640000000000000000 then
    some { microsecondsSinceEpoch := microseconds, isUtc, inRange }
  else none

/-- `DateTime.fromMillisecondsSinceEpoch`. -/
def fromMillisecondsSinceEpoch (milliseconds : Int) (isUtc : Bool) : Option DateTime :=
  fromMicrosecondsSinceEpoch (milliseconds * 1000) isUtc

end DateTime

/-- What is passed to `IsarCore.writeLong`; null is the least number. -/
def writeDate (value : Option DateTime) : Int64 :=
  match value with
  | some d => Int64.ofInt d.toUtc.microsecondsSinceEpoch
  | none => nullLong

/-- `_defaultValue` (`isar_analyzer.dart:335-356`) of a date. -/
def defaultDate (nullable : Bool) : Option DateTime :=
  if nullable then none else (DateTime.fromMillisecondsSinceEpoch 0 true).map DateTime.toLocal

/-- What becomes of the result of `IsarCore.readLong`; `none` is an exception. -/
def readDate (nullable utc : Bool) (value : Int64) : Option (Option DateTime) :=
  if value = nullLong then some (defaultDate nullable)
  else (DateTime.fromMicrosecondsSinceEpoch value.toInt true).map fun d =>
    some (if utc then d else d.toLocal)

/-- `_isarValue` of a date or null. -/
def isarValue (value : Option DateTime) : Option IsarValue :=
  value.map fun d => .integer (Int64.ofInt d.toUtc.microsecondsSinceEpoch)

/-- `isar_plus_value_get_integer` (`value.rs:37-44`). -/
def getInteger (value : IsarValue) : Int64 := value.i64?.getD Int64.minValue

/-- What `aggregate` makes of its result for a date; `none` is an exception. -/
def aggregateDate (value : Option IsarValue) : Option (Option DateTime) :=
  match value with
  | some value => (DateTime.fromMillisecondsSinceEpoch (getInteger value).toInt true).map fun d =>
      some d.toLocal
  | none => some none

end IsarPlus.Dart
