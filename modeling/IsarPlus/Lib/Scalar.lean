import IsarPlus.Lib.ByteBuffer
import Mathlib.Order.Basic
import Mathlib.Order.Compare

/-!
# Fixed-width scalars

Two's-complement integers and IEEE 754 numbers in a byte buffer. A float is its bit pattern:
comparison, the neighbouring value and the casts between the two widths are defined on the bits,
with every NaN unordered and the two zeros equal.
-/

namespace Scalar
open ByteBuffer

/-! ## Integers -/

def i32Le (v : Int32) : Bytes := leBytes 4 v.toUInt32.toNat
def leI32 (bs : Bytes) : Int32 := (UInt32.ofNat (leNat bs)).toInt32
def i64Le (v : Int64) : Bytes := leBytes 8 v.toUInt64.toNat
def leI64 (bs : Bytes) : Int64 := (UInt64.ofNat (leNat bs)).toInt64

@[simp] theorem length_i32Le (v : Int32) : (i32Le v).length = 4 := length_leBytes 4 _
@[simp] theorem length_i64Le (v : Int64) : (i64Le v).length = 8 := length_leBytes 8 _

@[simp] theorem leI32_i32Le (v : Int32) : leI32 (i32Le v) = v := by
  have bound : v.toUInt32.toNat < 256 ^ 4 := v.toUInt32.toNat_lt
  simp [leI32, i32Le, leNat_leBytes_of_lt bound]

@[simp] theorem leI64_i64Le (v : Int64) : leI64 (i64Le v) = v := by
  have bound : v.toUInt64.toNat < 256 ^ 8 := v.toUInt64.toNat_lt
  simp [leI64, i64Le, leNat_leBytes_of_lt bound]

/-- `v.try_into::<u8>()`. -/
def toU8? (v : Int64) : Option UInt8 :=
  if 0 ≤ v.toInt ∧ v.toInt ≤ 255 then some (UInt8.ofNat v.toInt.toNat) else none

/-- `v.try_into::<i32>()`. -/
def toI32? (v : Int64) : Option Int32 :=
  if -2 ^ 31 ≤ v.toInt ∧ v.toInt < 2 ^ 31 then some (Int32.ofInt v.toInt) else none

def checkedAddU8 (v : UInt8) : Option UInt8 := if v = 255 then none else some (v + 1)
def checkedSubU8 (v : UInt8) : Option UInt8 := if v = 0 then none else some (v - 1)
def checkedAddI32 (v : Int32) : Option Int32 :=
  if v = Int32.maxValue then none else some (v + 1)
def checkedSubI32 (v : Int32) : Option Int32 :=
  if v = Int32.minValue then none else some (v - 1)
def checkedAddI64 (v : Int64) : Option Int64 :=
  if v = Int64.maxValue then none else some (v + 1)
def checkedSubI64 (v : Int64) : Option Int64 :=
  if v = Int64.minValue then none else some (v - 1)

theorem toU8?_eq_some {v : Int64} {a : UInt8} : toU8? v = some a ↔ (a.toNat : Int) = v.toInt := by
  unfold toU8?
  have bound := a.toNat_lt
  split
  · rename_i h
    rw [Option.some.injEq, ← UInt8.toNat_inj, UInt8.toNat_ofNat']
    omega
  · simp only [reduceCtorEq, false_iff]
    omega

theorem toI32?_eq_some {v : Int64} {a : Int32} : toI32? v = some a ↔ a.toInt = v.toInt := by
  unfold toI32?
  have upper := a.toInt_lt
  have lower := a.le_toInt
  split
  · rename_i h
    rw [Option.some.injEq, ← Int32.toInt_inj, Int32.toInt_ofInt_of_le h.1 h.2]
    exact eq_comm
  · simp only [reduceCtorEq, false_iff]
    omega

/-- A checked step fails at the last value only, and the number after that one is no value's. -/
theorem checkedStep_eq_some {α : Type} [DecidableEq α] (number : α → Int)
    (injective : ∀ x y, number x = number y → x = y) (step : Int) (last : α) (next : α → α)
    (stepped : ∀ x, x ≠ last → number (next x) = number x + step)
    (ends : ∀ x, number x ≠ number last + step) (a b : α) :
    (if a = last then none else some (next a)) = some b ↔ number b = number a + step := by
  by_cases h : a = last
  · rw [if_pos h, h]
    exact ⟨(nomatch ·), (absurd · (ends b))⟩
  · rw [if_neg h, Option.some.injEq, ← stepped a h]
    exact ⟨fun eq => by rw [eq], fun eq => (injective _ _ eq).symm⟩

theorem toInt_add_one {w : Nat} (x : BitVec w) (wide : 1 < w)
    (below : x.toInt ≠ 2 ^ (w - 1) - 1) :
    (x + 1#w).toInt = x.toInt + 1 := by
  have lower := x.le_toInt
  have upper := x.toInt_lt
  have whole : ((2 ^ w : Nat) : Int) = 2 * 2 ^ (w - 1) := by
    push_cast
    rw [← pow_succ', Nat.sub_add_cancel (by omega)]
  rw [BitVec.toInt_add, BitVec.toInt_one wide, Int.bmod_eq_of_le (by omega) (by omega)]

theorem toInt_sub_one {w : Nat} (x : BitVec w) (wide : 1 < w) (above : x.toInt ≠ -2 ^ (w - 1)) :
    (x - 1#w).toInt = x.toInt - 1 := by
  have lower := x.le_toInt
  have upper := x.toInt_lt
  have whole : ((2 ^ w : Nat) : Int) = 2 * 2 ^ (w - 1) := by
    push_cast
    rw [← pow_succ', Nat.sub_add_cancel (by omega)]
  rw [BitVec.toInt_sub, BitVec.toInt_one wide, Int.bmod_eq_of_le (by omega) (by omega)]

theorem checkedAddU8_eq_some {a b : UInt8} :
    checkedAddU8 a = some b ↔ (b.toNat : Int) = a.toNat + 1 := by
  refine checkedStep_eq_some (fun x : UInt8 => (x.toNat : Int))
    (fun x y eq => UInt8.toNat_inj.mp (Int.ofNat.inj eq)) 1 255 (· + 1) ?_ ?_ a b
  · intro x other
    have below : x.toNat ≠ 255 := fun eq => other (UInt8.toNat_inj.mp eq)
    have bound := x.toNat_lt
    rw [UInt8.toNat_add, show (1 : UInt8).toNat = 1 from rfl]
    omega
  · intro x
    have bound := x.toNat_lt
    rw [show (255 : UInt8).toNat = 255 from rfl]
    omega

theorem checkedSubU8_eq_some {a b : UInt8} :
    checkedSubU8 a = some b ↔ (b.toNat : Int) = a.toNat - 1 := by
  refine checkedStep_eq_some (fun x : UInt8 => (x.toNat : Int))
    (fun x y eq => UInt8.toNat_inj.mp (Int.ofNat.inj eq)) (-1) 0 (· - 1) ?_ ?_ a b
  · intro x other
    have above : x.toNat ≠ 0 := fun eq => other (UInt8.toNat_inj.mp eq)
    have bound := x.toNat_lt
    rw [UInt8.toNat_sub, show (1 : UInt8).toNat = 1 from rfl]
    omega
  · intro x
    rw [show (0 : UInt8).toNat = 0 from rfl]
    omega

theorem checkedAddI32_eq_some {a b : Int32} :
    checkedAddI32 a = some b ↔ b.toInt = a.toInt + 1 := by
  refine checkedStep_eq_some Int32.toInt (fun _ _ eq => Int32.toInt_inj.mp eq)
    1 Int32.maxValue (· + 1) ?_ ?_ a b
  · intro x other
    exact toInt_add_one x.toBitVec (by decide) fun eq =>
      other (Int32.toInt_inj.mp (eq.trans Int32.toInt_maxValue.symm))
  · intro x
    have upper := x.toInt_lt
    rw [Int32.toInt_maxValue]
    omega

theorem checkedSubI32_eq_some {a b : Int32} :
    checkedSubI32 a = some b ↔ b.toInt = a.toInt - 1 := by
  refine checkedStep_eq_some Int32.toInt (fun _ _ eq => Int32.toInt_inj.mp eq)
    (-1) Int32.minValue (· - 1) ?_ ?_ a b
  · intro x other
    exact toInt_sub_one x.toBitVec (by decide) fun eq =>
      other (Int32.toInt_inj.mp (eq.trans Int32.toInt_minValue.symm))
  · intro x
    have lower := x.le_toInt
    rw [Int32.toInt_minValue]
    omega

theorem checkedAddI64_eq_some {a b : Int64} :
    checkedAddI64 a = some b ↔ b.toInt = a.toInt + 1 := by
  refine checkedStep_eq_some Int64.toInt (fun _ _ eq => Int64.toInt_inj.mp eq)
    1 Int64.maxValue (· + 1) ?_ ?_ a b
  · intro x other
    exact toInt_add_one x.toBitVec (by decide) fun eq =>
      other (Int64.toInt_inj.mp (eq.trans Int64.toInt_maxValue.symm))
  · intro x
    have upper := x.toInt_lt
    rw [Int64.toInt_maxValue]
    omega

theorem checkedSubI64_eq_some {a b : Int64} :
    checkedSubI64 a = some b ↔ b.toInt = a.toInt - 1 := by
  refine checkedStep_eq_some Int64.toInt (fun _ _ eq => Int64.toInt_inj.mp eq)
    (-1) Int64.minValue (· - 1) ?_ ?_ a b
  · intro x other
    exact toInt_sub_one x.toBitVec (by decide) fun eq =>
      other (Int64.toInt_inj.mp (eq.trans Int64.toInt_minValue.symm))
  · intro x
    have lower := x.le_toInt
    rw [Int64.toInt_minValue]
    omega

/-! ## Floats -/

/-- An `f32`, as its bits. -/
structure F32 where
  bits : UInt32
  deriving DecidableEq, Repr

/-- An `f64`, as its bits. -/
structure F64 where
  bits : UInt64
  deriving DecidableEq, Repr

namespace F32

def nan : F32 := ⟨0x7fc00000⟩
def infinity : F32 := ⟨0x7f800000⟩
def negInfinity : F32 := ⟨0xff800000⟩

def magnitude (v : F32) : Nat := v.bits.toNat % 2 ^ 31
def isNegative (v : F32) : Bool := 2 ^ 31 ≤ v.bits.toNat
def isNan (v : F32) : Bool := 255 * 2 ^ 23 < v.magnitude

/-- The place of a number in the order of the reals, infinities included. -/
def rank (v : F32) : Int := if v.isNegative then -v.magnitude else v.magnitude

def le (a b : F32) : Bool := !a.isNan && !b.isNan && decide (a.rank ≤ b.rank)

/-- The place in the total order, where the negative zero is below the positive one. -/
def total (v : F32) : Int := if v.isNegative then -v.magnitude - 1 else v.magnitude

/-- `f32::next_up`. -/
def nextUp (v : F32) : F32 :=
  if v.isNan || v == infinity then v
  else if v.magnitude = 0 then ⟨1⟩
  else if v.isNegative then ⟨v.bits - 1⟩
  else ⟨v.bits + 1⟩

end F32

namespace F64

def nan : F64 := ⟨0x7ff8000000000000⟩
def infinity : F64 := ⟨0x7ff0000000000000⟩
def negInfinity : F64 := ⟨0xfff0000000000000⟩

def magnitude (v : F64) : Nat := v.bits.toNat % 2 ^ 63
def isNegative (v : F64) : Bool := 2 ^ 63 ≤ v.bits.toNat
def isNan (v : F64) : Bool := 2047 * 2 ^ 52 < v.magnitude

/-- The place of a number in the order of the reals, infinities included. -/
def rank (v : F64) : Int := if v.isNegative then -v.magnitude else v.magnitude

def le (a b : F64) : Bool := !a.isNan && !b.isNan && decide (a.rank ≤ b.rank)
def eq (a b : F64) : Bool := !a.isNan && !b.isNan && decide (a.rank = b.rank)

/-- The place in the total order, where the negative zero is below the positive one. -/
def total (v : F64) : Int := if v.isNegative then -v.magnitude - 1 else v.magnitude

/-- `f64::partial_cmp`. -/
def partialCmp (a b : F64) : Option Ordering :=
  if a.isNan || b.isNan then none else some (cmp a.rank b.rank)

end F64

/-- `m / 2 ^ s`, rounded to nearest with ties to even. -/
def roundShift (m s : Nat) : Nat :=
  let q := m / 2 ^ s
  let r := m % 2 ^ s
  if 2 ^ s < 2 * r ∨ (2 * r = 2 ^ s ∧ q % 2 = 1) then q + 1 else q

/-- `v as f32`. -/
def F64.toF32 (v : F64) : F32 :=
  if v.isNan then F32.nan
  else
    let e := v.magnitude / 2 ^ 52
    let frac := v.magnitude % 2 ^ 52
    let m := if e = 0 then frac else 2 ^ 52 + frac
    let exp := max e 1
    let shift := max (Nat.log2 m - 23) (926 - exp)
    let mag :=
      if e = 2047 then 255 * 2 ^ 23
      else if m = 0 then 0
      else min (255 * 2 ^ 23) ((shift + exp - 926) * 2 ^ 23 + roundShift m shift)
    ⟨UInt32.ofNat (if v.isNegative then 2 ^ 31 + mag else mag)⟩

/-- `v as f64`. -/
def F32.toF64 (v : F32) : F64 :=
  if v.isNan then F64.nan
  else
    let e := v.magnitude / 2 ^ 23
    let m := v.magnitude % 2 ^ 23
    let mag :=
      if e = 255 then 2047 * 2 ^ 52
      else if e = 0 then
        if m = 0 then 0
        else (Nat.log2 m + 874) * 2 ^ 52 + (m - 2 ^ Nat.log2 m) * 2 ^ (52 - Nat.log2 m)
      else (e + 896) * 2 ^ 52 + m * 2 ^ 29
    ⟨UInt64.ofNat (if v.isNegative then 2 ^ 63 + mag else mag)⟩

/-- `v as f64` of an integer. -/
def F64.ofInt (v : Int) : F64 :=
  let m := v.natAbs
  let digits := Nat.log2 m
  let mag :=
    if m = 0 then 0
    else (digits + 1023) * 2 ^ 52 +
      (if digits ≤ 52 then m * 2 ^ (52 - digits) else roundShift m (digits - 52)) - 2 ^ 52
  ⟨UInt64.ofNat (if v < 0 then 2 ^ 63 + mag else mag)⟩

example : F64.ofInt (-3) = ⟨0xc008000000000000⟩ := by decide +kernel
example : F64.toF32 ⟨0x3ff0000000000000⟩ = ⟨0x3f800000⟩ := by decide +kernel
example : F32.toF64 ⟨0x3f800000⟩ = ⟨0x3ff0000000000000⟩ := by decide +kernel

def f32Le (v : F32) : Bytes := leBytes 4 v.bits.toNat
def leF32 (bs : Bytes) : F32 := ⟨UInt32.ofNat (leNat bs)⟩
def f64Le (v : F64) : Bytes := leBytes 8 v.bits.toNat
def leF64 (bs : Bytes) : F64 := ⟨UInt64.ofNat (leNat bs)⟩

@[simp] theorem length_f32Le (v : F32) : (f32Le v).length = 4 := length_leBytes 4 _
@[simp] theorem length_f64Le (v : F64) : (f64Le v).length = 8 := length_leBytes 8 _

@[simp] theorem leF32_f32Le (v : F32) : leF32 (f32Le v) = v := by
  have bound : v.bits.toNat < 256 ^ 4 := v.bits.toNat_lt
  simp [leF32, f32Le, leNat_leBytes_of_lt bound]

@[simp] theorem leF64_f64Le (v : F64) : leF64 (f64Le v) = v := by
  have bound : v.bits.toNat < 256 ^ 8 := v.bits.toNat_lt
  simp [leF64, f64Le, leNat_leBytes_of_lt bound]

/-! ## Orders on unsigned integers -/

instance linearOrderUInt8 : LinearOrder UInt8 where
  le_refl a := UInt8.le_refl a
  le_trans a b c := UInt8.le_trans
  lt_iff_le_not_ge a b := by simp [UInt8.lt_iff_toNat_lt, UInt8.le_iff_toNat_le]; omega
  le_antisymm a b h h' := UInt8.le_antisymm h h'
  le_total a b := UInt8.le_total a b
  toDecidableLE := inferInstance
  min_def a b := rfl
  max_def a b := rfl
  compare_eq_compareOfLessAndEq a b := rfl

instance linearOrderUInt64 : LinearOrder UInt64 where
  le_refl a := UInt64.le_refl a
  le_trans a b c := UInt64.le_trans
  lt_iff_le_not_ge a b := by simp [UInt64.lt_iff_toNat_lt, UInt64.le_iff_toNat_le]; omega
  le_antisymm a b h h' := UInt64.le_antisymm h h'
  le_total a b := UInt64.le_total a b
  toDecidableLE := inferInstance
  min_def a b := rfl
  max_def a b := rfl
  compare_eq_compareOfLessAndEq a b := rfl

end Scalar
