import IsarPlus.Lib.Sql

/-!
# Float arithmetic

The comparison of 32-bit floats, and the arithmetic of 64-bit floats: the exact result,
rounded to nearest with ties to even.
-/

namespace Scalar
open Sql (scaled)

/-- `f32::partial_cmp`. -/
def F32.partialCmp (a b : F32) : Option Ordering :=
  if a.isNan || b.isNan then none else some (cmp a.rank b.rank)

/-- The magnitude that is nearest to `n / d * 2 ^ -1074`. -/
def nearestMagnitude (n d : Nat) : Nat :=
  let k := Nat.log2 (n / d) - 52
  let q := n / (d * 2 ^ k)
  let r := n % (d * 2 ^ k)
  let up := d * 2 ^ k < 2 * r ∨ (2 * r = d * 2 ^ k ∧ q % 2 = 1)
  min (2047 * 2 ^ 52) (k * 2 ^ 52 + if up then q + 1 else q)

namespace F64

def ofMagnitude (negative : Bool) (magnitude : Nat) : F64 :=
  ⟨UInt64.ofNat (if negative then 2 ^ 63 + magnitude else magnitude)⟩

def isInfinite (v : F64) : Bool := v.magnitude = 2047 * 2 ^ 52

/-- `a + b`; a sum of zero is negative only if both summands are. -/
def add (a b : F64) : F64 :=
  if a.isNan || b.isNan then nan
  else if a.isInfinite then if b.isInfinite && a.isNegative != b.isNegative then nan else a
  else if b.isInfinite then b
  else
    let sum := scaled a + scaled b
    if sum = 0 then ofMagnitude (a.isNegative && b.isNegative) 0
    else ofMagnitude (sum < 0) (nearestMagnitude sum.natAbs 1)

def neg (v : F64) : F64 := ofMagnitude (!v.isNegative) v.magnitude

/-- `a - b`. -/
def sub (a b : F64) : F64 := a.add b.neg

/-- `fabs(a) < fabs(b)`. -/
def absLt (a b : F64) : Bool := !a.isNan && !b.isNan && decide (a.magnitude < b.magnitude)

/-- `a / b`. -/
def div (a b : F64) : F64 :=
  let negative := a.isNegative != b.isNegative
  if a.isNan || b.isNan then nan
  else if a.isInfinite then if b.isInfinite then nan else ofMagnitude negative infinity.magnitude
  else if b.isInfinite then ofMagnitude negative 0
  else if b.magnitude = 0 then
    if a.magnitude = 0 then nan else ofMagnitude negative infinity.magnitude
  else
    ofMagnitude negative
      (nearestMagnitude ((scaled a).natAbs * 2 ^ 1074) (scaled b).natAbs)

example : (ofInt 7).div (ofInt (-2)) = ⟨0xc00c000000000000⟩ := by decide +kernel
example : (ofInt 1).div (ofInt 3) = ⟨0x3fd5555555555555⟩ := by decide +kernel
example : (ofInt 7).add (ofInt (-2)) = ofInt 5 := by decide +kernel
example : (ofInt 7).sub (ofInt 7) = ⟨0⟩ := by decide +kernel

end F64

end Scalar
