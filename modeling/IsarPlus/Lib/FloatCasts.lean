import IsarPlus.Lib.Scalar
import Mathlib.Tactic.Ring

/-!
# Casts between the float widths

A 32-bit float is exact as a 64-bit float: the way there and back changes nothing but the payload of
a NaN.
-/

namespace Scalar

theorem roundShift_mul (k s : Nat) : roundShift (k * 2 ^ s) s = k := by
  have positive : 0 < 2 ^ s := Nat.two_pow_pos s
  unfold roundShift
  simp only [Nat.mul_div_cancel _ positive, Nat.mul_mod_left]
  rw [if_neg (by omega)]

/-- The magnitude of an `f32` as an `f64`, from its exponent and its fraction. -/
def widened (e m : Nat) : Nat :=
  if e = 255 then 2047 * 2 ^ 52
  else if e = 0 then
    if m = 0 then 0
    else (Nat.log2 m + 874) * 2 ^ 52 + (m - 2 ^ Nat.log2 m) * 2 ^ (52 - Nat.log2 m)
  else (e + 896) * 2 ^ 52 + m * 2 ^ 29

/-- The magnitude of an `f64` as an `f32`, from its exponent and its fraction. -/
def narrowed (e frac : Nat) : Nat :=
  let m := if e = 0 then frac else 2 ^ 52 + frac
  let exp := max e 1
  let shift := max (Nat.log2 m - 23) (926 - exp)
  if e = 2047 then 255 * 2 ^ 23
  else if m = 0 then 0
  else min (255 * 2 ^ 23) ((shift + exp - 926) * 2 ^ 23 + roundShift m shift)

theorem log2_of_implicit {frac : Nat} (h : frac < 2 ^ 52) : Nat.log2 (2 ^ 52 + frac) = 52 := by
  refine (Nat.log2_eq_iff (by omega)).mpr ⟨by omega, by omega⟩

theorem narrowed_normal {e m : Nat} (pos : 0 < e) (lt : e < 255) (bound : m < 2 ^ 23) :
    narrowed (e + 896) (m * 2 ^ 29) = e * 2 ^ 23 + m := by
  have frac : m * 2 ^ 29 < 2 ^ 52 := by omega
  have exp : max (e + 896) 1 = e + 896 := by omega
  have shift : max (52 - 23) (926 - (e + 896)) = 29 := by omega
  have whole : 2 ^ 52 + m * 2 ^ 29 = (2 ^ 23 + m) * 2 ^ 29 := by ring
  simp only [narrowed, if_neg (show e + 896 ≠ 0 by omega), log2_of_implicit frac, exp, shift,
    if_neg (show e + 896 ≠ 2047 by omega), if_neg (show 2 ^ 52 + m * 2 ^ 29 ≠ 0 by omega)]
  rw [whole, roundShift_mul]
  omega

theorem narrowed_subnormal {m : Nat} (pos : m ≠ 0) (bound : m < 2 ^ 23) :
    narrowed (Nat.log2 m + 874) ((m - 2 ^ Nat.log2 m) * 2 ^ (52 - Nat.log2 m)) = m := by
  have lower : 2 ^ Nat.log2 m ≤ m := Nat.log2_self_le pos
  have upper : m < 2 ^ (Nat.log2 m + 1) := Nat.lt_log2_self
  have small : Nat.log2 m < 23 := (Nat.log2_lt pos).mpr bound
  generalize Nat.log2 m = l at lower upper small
  have power : 2 ^ l * 2 ^ (52 - l) = 2 ^ 52 := by
    rw [← Nat.pow_add]
    congr 1
    omega
  have whole : 2 ^ 52 + (m - 2 ^ l) * 2 ^ (52 - l) = m * 2 ^ (52 - l) := by
    rw [← power, ← Nat.add_mul]
    congr 1
    omega
  have frac : (m - 2 ^ l) * 2 ^ (52 - l) < 2 ^ 52 := by
    rw [← power]
    refine Nat.mul_lt_mul_of_pos_right ?_ (Nat.two_pow_pos _)
    rw [Nat.pow_succ] at upper
    omega
  have exp : max (l + 874) 1 = l + 874 := by omega
  have shift : max (52 - 23) (926 - (l + 874)) = 52 - l := by omega
  have align : 52 - l + (l + 874) - 926 = 0 := by omega
  simp only [narrowed, if_neg (show l + 874 ≠ 0 by omega), log2_of_implicit frac, exp, shift,
    if_neg (show l + 874 ≠ 2047 by omega),
    if_neg (show 2 ^ 52 + (m - 2 ^ l) * 2 ^ (52 - l) ≠ 0 by omega), align]
  rw [whole, roundShift_mul]
  omega

theorem toF64_eq {v : F32} (number : v.isNan = false) :
    v.toF64 = ⟨UInt64.ofNat (if v.isNegative then
      2 ^ 63 + widened (v.magnitude / 2 ^ 23) (v.magnitude % 2 ^ 23)
      else widened (v.magnitude / 2 ^ 23) (v.magnitude % 2 ^ 23))⟩ := by
  simp only [F32.toF64, number, widened]
  rfl

theorem toF32_eq {v : F64} (number : v.isNan = false) :
    v.toF32 = ⟨UInt32.ofNat (if v.isNegative then
      2 ^ 31 + narrowed (v.magnitude / 2 ^ 52) (v.magnitude % 2 ^ 52)
      else narrowed (v.magnitude / 2 ^ 52) (v.magnitude % 2 ^ 52))⟩ := by
  simp only [F64.toF32, number, narrowed]
  rfl

/-- `widened` stays within the exponents of an `f64`, and `narrowed` takes it back. -/
theorem narrowed_widened {e m : Nat} (number : e < 255 ∨ e = 255 ∧ m = 0) (bound : m < 2 ^ 23) :
    widened e m ≤ 2047 * 2 ^ 52 ∧ (e < 255 → widened e m < 2047 * 2 ^ 52) ∧
      narrowed (widened e m / 2 ^ 52) (widened e m % 2 ^ 52) = e * 2 ^ 23 + m := by
  have split {q r : Nat} (small : r < 2 ^ 52) :
      (q * 2 ^ 52 + r) / 2 ^ 52 = q ∧ (q * 2 ^ 52 + r) % 2 ^ 52 = r := by omega
  rcases number with normal | ⟨rfl, rfl⟩
  · rcases Nat.eq_zero_or_pos e with rfl | pos
    · by_cases zero : m = 0
      · subst zero
        decide
      · have lower : 2 ^ Nat.log2 m ≤ m := Nat.log2_self_le zero
        have upper : m < 2 ^ (Nat.log2 m + 1) := Nat.lt_log2_self
        have small : Nat.log2 m < 23 := (Nat.log2_lt zero).mpr bound
        have frac : (m - 2 ^ Nat.log2 m) * 2 ^ (52 - Nat.log2 m) < 2 ^ 52 := by
          have power : 2 ^ Nat.log2 m * 2 ^ (52 - Nat.log2 m) = 2 ^ 52 := by
            rw [← Nat.pow_add]
            congr 1
            omega
          refine lt_of_lt_of_eq (Nat.mul_lt_mul_of_pos_right ?_ (Nat.two_pow_pos _)) power
          rw [Nat.pow_succ] at upper
          omega
        obtain ⟨exponent, fraction⟩ := split (q := Nat.log2 m + 874) frac
        simp only [widened, if_neg (show (0 : Nat) ≠ 255 by decide), if_true, if_neg zero]
        rw [exponent, fraction, narrowed_subnormal zero bound]
        omega
    · have frac : m * 2 ^ 29 < 2 ^ 52 := by omega
      obtain ⟨exponent, fraction⟩ := split (q := e + 896) frac
      simp only [widened, if_neg (show e ≠ 255 by omega), if_neg (show e ≠ 0 by omega)]
      rw [exponent, fraction, narrowed_normal pos normal bound]
      omega
  · decide

namespace F32

theorem parts {v : F32} (number : v.isNan = false) :
    (v.magnitude / 2 ^ 23 < 255 ∨ v.magnitude / 2 ^ 23 = 255 ∧ v.magnitude % 2 ^ 23 = 0) ∧
      v.magnitude % 2 ^ 23 < 2 ^ 23 := by
  have bound : ¬ 255 * 2 ^ 23 < v.magnitude := of_decide_eq_false number
  omega

theorem magnitude_toF64 {v : F32} (number : v.isNan = false) :
    v.toF64.magnitude = widened (v.magnitude / 2 ^ 23) (v.magnitude % 2 ^ 23) ∧
      v.toF64.isNegative = v.isNegative := by
  obtain ⟨exponent, fraction⟩ := parts number
  have bound := (narrowed_widened exponent fraction).1
  rw [toF64_eq number]
  generalize widened _ _ = mag at bound
  cases v.isNegative
  · have toNat : (UInt64.ofNat mag).toNat = mag := UInt64.toNat_ofNat_of_lt' (by
      show _ < 2 ^ 64
      omega)
    simp only [F64.magnitude, F64.isNegative, toNat, Bool.false_eq_true, if_false]
    exact ⟨Nat.mod_eq_of_lt (by omega), decide_eq_false (by omega)⟩
  · have toNat : (UInt64.ofNat (2 ^ 63 + mag)).toNat = 2 ^ 63 + mag :=
      UInt64.toNat_ofNat_of_lt' (by
        show _ < 2 ^ 64
        omega)
    simp only [F64.magnitude, F64.isNegative, toNat, if_true]
    exact ⟨by omega, decide_eq_true (by omega)⟩

/-- A 32-bit float is exact as a 64-bit float. -/
theorem toF32_toF64 {v : F32} (number : v.isNan = false) : v.toF64.toF32 = v := by
  obtain ⟨exponent, fraction⟩ := parts number
  obtain ⟨bound, -, back⟩ := narrowed_widened exponent fraction
  obtain ⟨wide, sign⟩ := magnitude_toF64 number
  have number' : v.toF64.isNan = false := by
    rw [F64.isNan, wide]
    exact decide_eq_false (by omega)
  have whole : v.magnitude / 2 ^ 23 * 2 ^ 23 + v.magnitude % 2 ^ 23 = v.magnitude := by omega
  rw [toF32_eq number', wide, sign, back, whole]
  have bits : (if v.isNegative then 2 ^ 31 + v.magnitude else v.magnitude) = v.bits.toNat := by
    have lt := v.bits.toNat_lt
    unfold isNegative magnitude
    by_cases negative : 2 ^ 31 ≤ v.bits.toNat
    · rw [decide_eq_true negative, if_pos rfl]
      omega
    · rw [decide_eq_false negative, if_neg (by decide)]
      omega
  rw [bits, UInt32.ofNat_toNat]

end F32

end Scalar
