import IsarPlus.Lib.Fnv
import IsarPlus.Lib.Utf16

/-!
# Integer ids of string ids

`dart_fast_hash` (`isar_core_ffi/src/lib.rs:187-199`), which `import_json` is given to hash the id of
an object, and the two functions with which the Dart side hashes a string id before it calls into
the core.
-/

namespace IsarPlus.Ffi

/-- `dart_fast_hash` (`isar_core_ffi/src/lib.rs:187-199`). -/
def dartFastHash (value : List Char) : Int64 :=
  ((Utf16.encode value).foldl
    (fun (hash : UInt64) (char : UInt16) =>
      let hash := hash ^^^ (char >>> 8).toUInt64
      let hash := hash * 0x100000001b3
      let hash := hash ^^^ (char &&& 0xFF).toUInt64
      hash * 0x100000001b3)
    (0xcbf29ce484222325 : UInt64)).toInt64

/-- `platformFastHash` (`native/native.dart:124-139`). The integers of the Dart VM have 64 bits and
wrap. -/
def nativeFastHash (string : List UInt16) : Int64 :=
  string.foldl
    (fun (hash : Int64) (codeUnit : UInt16) =>
      let codeUnit := codeUnit.toUInt64.toInt64
      let hash := hash ^^^ (codeUnit >>> 8)
      let hash := hash * 0x100000001b3
      let hash := hash ^^^ (codeUnit &&& 0xFF)
      hash * 0x100000001b3)
    (0xcbf29ce484222325 : UInt64).toInt64

/-! ## The web

The bit operators of JavaScript take their operands modulo 2³². Sums and products are exact up to
2⁵³, which no number here exceeds. -/

def jsXor (a b : Nat) : Nat := (a % 2 ^ 32) ^^^ (b % 2 ^ 32)

def jsAnd (a b : Nat) : Nat := (a % 2 ^ 32) &&& (b % 2 ^ 32)

def jsShiftLeft (a n : Nat) : Nat := (a % 2 ^ 32) <<< n % 2 ^ 32

def jsShiftRight (a n : Nat) : Nat := (a % 2 ^ 32) >>> n

/-- The variables that the loop carries. -/
structure Accumulators where
  v0 : Nat
  v1 : Nat
  v2 : Nat
  v3 : Nat
  deriving DecidableEq, Repr

/-- One turn of the loop (`web/web.dart:171-185`). -/
def Accumulators.next (a : Accumulators) (codeUnit : UInt16) : Accumulators :=
  let v0 := jsXor a.v0 codeUnit.toNat
  let t0 := v0 * 435
  let t1 := a.v1 * 435
  let t2 := a.v2 * 435
  let t3 := a.v3 * 435
  let t2 := t2 + jsShiftLeft v0 8
  let t3 := t3 + jsShiftLeft a.v1 8
  let t1 := t1 + jsShiftRight t0 16
  let v0 := jsAnd t0 65535
  let t2 := t2 + jsShiftRight t1 16
  let v1 := jsAnd t1 65535
  let v3 := jsAnd (t3 + jsShiftRight t2 16) 65535
  let v2 := jsAnd t2 65535
  { v0, v1, v2, v3 }

/-- What the function returns (`web/web.dart:187-190`). -/
def Accumulators.result (a : Accumulators) : Nat :=
  jsAnd a.v3 15 * 281474976710656 + a.v2 * 4294967296 + a.v1 * 65536 +
    jsXor a.v0 (jsShiftRight a.v3 4)

/-- `platformFastHash` (`web/web.dart:160-191`). -/
def webFastHash (str : List UInt16) : Nat :=
  (str.foldl Accumulators.next ⟨0x2325, 0x8422, 0x9ce4, 0xcbf2⟩).result

/-- `isar_to_i64` of a whole number on the web (`isar_core_ffi/src/lib.rs:225-233`): numbers below
2⁵³ pass through a double unchanged. -/
def isarToI64 (value : Nat) : Int64 := Int64.ofNat value

/-! ## Ids -/

/-- The builds of the core and of the Dart side. -/
inductive Build where
  | native | web
  deriving DecidableEq, Repr

/-- The id under which `import_json` stores an object with a string id
(`core/de.rs:167-176`); the core is the same in both builds. -/
def importedId (value : List Char) : Int64 := dartFastHash value

/-- The id that the core receives for a string id in a call from Dart (`_idToInt`,
`isar_collection_impl.dart:439-446`). -/
def passedId : Build → List UInt16 → Int64
  | .native, id => nativeFastHash id
  | .web, id => isarToI64 (webFastHash id)

end IsarPlus.Ffi
