import IsarPlus.Lib.FloatArithmetic
import IsarPlus.Lib.FloatOrder
import Mathlib

/-!
# The values of floats

The value of a float as an integer multiple of `2 ^ -1074`. It follows the order of the floats, and
an integer that is the value of a float is converted without rounding.
-/

namespace Scalar
open Sql (scaled)

/-! ## Order -/

/-- The value of a float without its sign. -/
def scaledMagnitude (magnitude : Nat) : Nat :=
  (if magnitude / 2 ^ 52 = 0 then magnitude % 2 ^ 52 else 2 ^ 52 + magnitude % 2 ^ 52) *
    2 ^ (max (magnitude / 2 ^ 52) 1 - 1)

theorem scaled_eq (v : F64) :
    scaled v = if v.isNegative then -(scaledMagnitude v.magnitude : Int)
      else scaledMagnitude v.magnitude := by
  unfold scaled scaledMagnitude
  cases v.isNegative
  · rw [if_neg (by decide), if_neg (by decide), one_mul]
  · rw [if_pos rfl, if_pos rfl, neg_one_mul]

theorem scaledMagnitude_lt_succ (m : Nat) : scaledMagnitude m < scaledMagnitude (m + 1) := by
  unfold scaledMagnitude
  by_cases last : m % 2 ^ 52 = 2 ^ 52 - 1
  · have quotient : (m + 1) / 2 ^ 52 = m / 2 ^ 52 + 1 := by omega
    have remainder : (m + 1) % 2 ^ 52 = 0 := by omega
    rw [quotient, remainder, last, if_neg (Nat.succ_ne_zero _)]
    generalize m / 2 ^ 52 = e
    cases e with
    | zero => decide
    | succ e =>
      have low : max (e + 1) 1 - 1 = e := by omega
      have high : max (e + 1 + 1) 1 - 1 = e + 1 := by omega
      rw [if_neg (Nat.succ_ne_zero e), low, high, Nat.pow_succ]
      have pos := Nat.two_pow_pos e
      omega
  · have quotient : (m + 1) / 2 ^ 52 = m / 2 ^ 52 := by omega
    have remainder : (m + 1) % 2 ^ 52 = m % 2 ^ 52 + 1 := by omega
    rw [quotient, remainder]
    refine Nat.mul_lt_mul_of_pos_right ?_ (Nat.two_pow_pos _)
    split <;> omega

theorem scaledMagnitude_lt_iff {m n : Nat} : scaledMagnitude m < scaledMagnitude n ↔ m < n :=
  (strictMono_nat_of_lt_succ scaledMagnitude_lt_succ).lt_iff_lt

/-- The values are in the order of the floats. -/
theorem scaled_lt_iff (a b : F64) : scaled a < scaled b ↔ a.rank < b.rank := by
  have zero : scaledMagnitude 0 = 0 := by decide
  have pos (m : Nat) : 0 < scaledMagnitude m ↔ 0 < m := by
    have := @scaledMagnitude_lt_iff 0 m
    rwa [zero] at this
  rw [scaled_eq, scaled_eq]
  exact signed_lt_iff scaledMagnitude_lt_iff scaledMagnitude_lt_iff (pos _) (pos _) _ _

theorem cmp_scaled (a b : F64) : cmp (scaled a) (scaled b) = cmp a.rank b.rank := by
  unfold cmp cmpUsing
  rw [if_congr (scaled_lt_iff a b) rfl (if_congr (scaled_lt_iff b a) rfl rfl)]

theorem F64.magnitude_of_rank {v : F64} {n : Int} (h : v.rank = n) : v.magnitude = n.natAbs := by
  unfold rank at h
  split at h <;> omega

theorem scaled_eq_zero {v : F64} (h : v.rank = 0) : scaled v = 0 := by
  have zero : scaledMagnitude 0 = 0 := by decide
  rw [scaled_eq, F64.magnitude_of_rank h, Int.natAbs_zero, zero]
  split <;> rfl

/-- A float that is not zero is known by its rank. -/
theorem F64.eq_of_rank {a b : F64} (same : a.rank = b.rank) (pos : a.rank ≠ 0) : a = b := by
  have magnitude_ : a.magnitude = b.magnitude :=
    (magnitude_of_rank same).trans (magnitude_of_rank rfl).symm
  have sign : a.isNegative = b.isNegative := by
    unfold rank at same pos
    cases signA : a.isNegative <;> cases signB : b.isNegative <;>
      simp only [signA, signB, Bool.false_eq_true, if_true, if_false] at same pos <;>
      first | rfl | omega
  have boundA := a.bits.toNat_lt
  have boundB := b.bits.toNat_lt
  have half := decide_eq_decide.mp sign
  unfold magnitude at magnitude_
  have bits : a.bits.toNat = b.bits.toNat := by omega
  cases a
  cases b
  exact congrArg F64.mk (UInt64.toNat_inj.mp bits)

/-! ## Integers -/

/-- The magnitude of a float that is an integer. -/
def intMagnitude (m : Nat) : Nat :=
  if m = 0 then 0
  else (Nat.log2 m + 1023) * 2 ^ 52 +
    (if Nat.log2 m ≤ 52 then m * 2 ^ (52 - Nat.log2 m) else roundShift m (Nat.log2 m - 52)) - 2 ^ 52

/-- The digits behind the 53 leading ones are zero. -/
theorem dvd_of_scaledMagnitude {m n : Nat} (pos : n ≠ 0)
    (h : scaledMagnitude m = n * 2 ^ 1074) : 2 ^ (Nat.log2 n - 52) ∣ n := by
  unfold scaledMagnitude at h
  have mantissa : (if m / 2 ^ 52 = 0 then m % 2 ^ 52 else 2 ^ 52 + m % 2 ^ 52) < 2 ^ 53 := by
    split <;> omega
  generalize (if m / 2 ^ 52 = 0 then m % 2 ^ 52 else 2 ^ 52 + m % 2 ^ 52) = f at h mantissa
  generalize max (m / 2 ^ 52) 1 - 1 = e at h
  have lower : 2 ^ Nat.log2 n ≤ n := Nat.log2_self_le pos
  by_cases large : 1074 ≤ e
  · obtain ⟨k, rfl⟩ := Nat.exists_eq_add_of_le large
    have value : n = f * 2 ^ k := by
      rw [Nat.add_comm, Nat.pow_add, ← Nat.mul_assoc] at h
      exact (Nat.eq_of_mul_eq_mul_right (Nat.two_pow_pos _) h).symm
    have shift : Nat.log2 n - 52 ≤ k := by
      have below : n < 2 ^ (53 + k) := by
        rw [value, Nat.pow_add]
        exact Nat.mul_lt_mul_of_pos_right mantissa (Nat.two_pow_pos k)
      have := (Nat.pow_lt_pow_iff_right (by decide)).mp (lt_of_le_of_lt lower below)
      omega
    rw [value] at shift ⊢
    exact (Nat.pow_dvd_pow 2 shift).trans (Nat.dvd_mul_left _ _)
  · -- a number below `2 ^ 53` has no further digits
    obtain ⟨k, eq⟩ := Nat.exists_eq_add_of_le (not_le.mp large).le
    have value : f = n * 2 ^ k := by
      rw [eq, Nat.pow_add, Nat.mul_comm (2 ^ e), ← Nat.mul_assoc] at h
      exact Nat.eq_of_mul_eq_mul_right (Nat.two_pow_pos e) h
    have small : n < 2 ^ 53 := by
      have := Nat.le_mul_of_pos_right n (Nat.two_pow_pos k)
      omega
    have := (Nat.pow_lt_pow_iff_right (by decide)).mp (lt_of_le_of_lt lower small)
    have shift : Nat.log2 n - 52 = 0 := by omega
    rw [shift]
    exact Nat.one_dvd n

theorem scaledMagnitude_intMagnitude {n : Nat} (bound : n < 2 ^ 64)
    (exact_ : n ≠ 0 → 2 ^ (Nat.log2 n - 52) ∣ n) :
    scaledMagnitude (intMagnitude n) = n * 2 ^ 1074 ∧ intMagnitude n < 2047 * 2 ^ 52 := by
  unfold intMagnitude
  by_cases zero : n = 0
  · rw [if_pos zero, zero, Nat.zero_mul]
    exact ⟨by decide, by decide⟩
  · rw [if_neg zero]
    have lower : 2 ^ Nat.log2 n ≤ n := Nat.log2_self_le zero
    have upper : n < 2 ^ (Nat.log2 n + 1) := Nat.lt_log2_self
    have small : Nat.log2 n < 64 := (Nat.log2_lt zero).mpr bound
    have divides := exact_ zero
    generalize Nat.log2 n = d at lower upper small divides
    -- the digits of the mantissa, with the leading one
    obtain ⟨f, digits, value, low, high⟩ : ∃ f,
        (if d ≤ 52 then n * 2 ^ (52 - d) else roundShift n (d - 52)) = f ∧
          f * 2 ^ d = n * 2 ^ 52 ∧ 2 ^ 52 ≤ f ∧ f < 2 ^ 53 := by
      by_cases short : d ≤ 52
      · obtain ⟨k, eq⟩ := Nat.exists_eq_add_of_le short
        have shift : 52 - d = k := by omega
        have power : 2 ^ d * 2 ^ k = 2 ^ 52 := by rw [← Nat.pow_add, ← eq]
        refine ⟨_, if_pos short, ?_, ?_, ?_⟩
        · rw [shift, Nat.mul_assoc, Nat.mul_comm (2 ^ k), power]
        · rw [shift, ← power]
          exact Nat.mul_le_mul_right _ lower
        · have double : 2 ^ (d + 1) * 2 ^ k = 2 ^ 53 := by
            rw [Nat.pow_succ, Nat.mul_right_comm, power]
            rfl
          rw [shift, ← double]
          exact Nat.mul_lt_mul_of_pos_right upper (Nat.two_pow_pos k)
      · obtain ⟨k, rfl⟩ := Nat.exists_eq_add_of_le (not_le.mp short).le
        have shift : 52 + k - 52 = k := by omega
        rw [shift] at divides
        obtain ⟨q, rfl⟩ := divides
        refine ⟨q, ?_, ?_, ?_, ?_⟩
        · rw [if_neg short, shift, Nat.mul_comm, roundShift_mul]
        · rw [Nat.pow_add, Nat.mul_comm (2 ^ 52), ← Nat.mul_assoc, Nat.mul_comm q]
        · rw [Nat.pow_add, Nat.mul_comm (2 ^ k)] at lower
          exact Nat.le_of_mul_le_mul_right lower (Nat.two_pow_pos k)
        · have power : 2 ^ (52 + k + 1) = 2 ^ 53 * 2 ^ k := by
            rw [← Nat.pow_add]
            congr 1
            omega
          rw [power, Nat.mul_comm (2 ^ k)] at upper
          exact Nat.lt_of_mul_lt_mul_right upper
    rw [digits]
    have quotient : ((d + 1023) * 2 ^ 52 + f - 2 ^ 52) / 2 ^ 52 = d + 1023 := by omega
    have remainder : ((d + 1023) * 2 ^ 52 + f - 2 ^ 52) % 2 ^ 52 = f - 2 ^ 52 := by omega
    refine ⟨?_, by omega⟩
    unfold scaledMagnitude
    rw [quotient, remainder, if_neg (Nat.succ_ne_zero _), Nat.add_sub_cancel' low,
      show max (d + 1023) 1 - 1 = d + 1022 by omega, Nat.pow_add, ← Nat.mul_assoc, value,
      Nat.mul_assoc, ← Nat.pow_add]

theorem F64.magnitude_ofInt {v : Int} (bound : intMagnitude v.natAbs < 2 ^ 63) :
    (F64.ofInt v).magnitude = intMagnitude v.natAbs ∧ (F64.ofInt v).isNegative = decide (v < 0) := by
  have eq : F64.ofInt v = ⟨UInt64.ofNat (if v < 0 then 2 ^ 63 + intMagnitude v.natAbs
      else intMagnitude v.natAbs)⟩ := rfl
  rw [eq]
  generalize intMagnitude v.natAbs = mag at bound
  unfold magnitude isNegative
  by_cases negative : v < 0
  · have toNat : (UInt64.ofNat (2 ^ 63 + mag)).toNat = 2 ^ 63 + mag :=
      UInt64.toNat_ofNat_of_lt' (by
        show _ < 2 ^ 64
        omega)
    rw [if_pos negative, toNat, decide_eq_true negative]
    exact ⟨by omega, decide_eq_true (by omega)⟩
  · have toNat : (UInt64.ofNat mag).toNat = mag := UInt64.toNat_ofNat_of_lt' (by
      show _ < 2 ^ 64
      omega)
    rw [if_neg negative, toNat, decide_eq_false negative]
    exact ⟨Nat.mod_eq_of_lt bound, decide_eq_false (by omega)⟩

/-- An integer that is the value of a float is converted to that value. -/
theorem scaled_ofInt {r : F64} {v : Int} (bound : v.natAbs < 2 ^ 64)
    (h : scaled r = v * 2 ^ 1074) :
    scaled (F64.ofInt v) = v * 2 ^ 1074 ∧ (F64.ofInt v).isNan = false := by
  have size : scaledMagnitude r.magnitude = v.natAbs * 2 ^ 1074 := by
    have abs := congrArg Int.natAbs h
    rw [Int.natAbs_mul, scaled_eq] at abs
    refine Eq.trans ?_ abs
    split
    · rw [Int.natAbs_neg, Int.natAbs_natCast]
    · rw [Int.natAbs_natCast]
  obtain ⟨value, finite⟩ := scaledMagnitude_intMagnitude bound fun pos =>
    dvd_of_scaledMagnitude pos size
  obtain ⟨magnitude, sign⟩ := F64.magnitude_ofInt (lt_trans finite (by decide))
  constructor
  · rw [scaled_eq, magnitude, sign, value]
    by_cases negative : v < 0
    · rw [decide_eq_true negative, if_pos rfl]
      push_cast
      rw [abs_of_neg negative]
      ring
    · rw [decide_eq_false negative, if_neg (by decide)]
      push_cast
      rw [abs_of_nonneg (not_lt.mp negative)]
  · rw [F64.isNan, magnitude]
    exact decide_eq_false (by omega)

/-! ## Numbers -/

theorem roundShift_le {m k s : Nat} (h : m ≤ k * 2 ^ s) : roundShift m s ≤ k :=
  (roundShift_mono s h).trans_eq (roundShift_mul k s)

theorem intMagnitude_bounds {n : Nat} (bound : n < 2 ^ 64) :
    intMagnitude n < 2047 * 2 ^ 52 ∧ (n ≠ 0 → intMagnitude n ≠ 0) := by
  unfold intMagnitude
  by_cases zero : n = 0
  · rw [if_pos zero]
    exact ⟨by decide, fun pos => absurd zero pos⟩
  rw [if_neg zero]
  have upper : n < 2 ^ (Nat.log2 n + 1) := Nat.lt_log2_self
  have small : Nat.log2 n < 64 := (Nat.log2_lt zero).mpr bound
  generalize Nat.log2 n = d at upper small
  have digits : (if d ≤ 52 then n * 2 ^ (52 - d) else roundShift n (d - 52)) ≤ 2 ^ 53 := by
    split
    · rename_i short
      have power : 2 ^ (d + 1) * 2 ^ (52 - d) = 2 ^ 53 := by
        rw [← Nat.pow_add]
        congr 1
        omega
      rw [← power]
      exact Nat.mul_le_mul_right _ upper.le
    · refine roundShift_le (upper.le.trans_eq ?_)
      rw [← Nat.pow_add]
      congr 1
      omega
  generalize (if d ≤ 52 then n * 2 ^ (52 - d) else roundShift n (d - 52)) = f at digits
  exact ⟨by omega, fun _ => by omega⟩

/-- The integers of 64 bits are finite floats. -/
theorem F64.ofInt_finite {v : Int} (bound : v.natAbs < 2 ^ 64) :
    (F64.ofInt v).magnitude < 2047 * 2 ^ 52 ∧ (v ≠ 0 → (F64.ofInt v).magnitude ≠ 0) := by
  obtain ⟨finite, pos⟩ := intMagnitude_bounds bound
  rw [(F64.magnitude_ofInt (lt_trans finite (by decide))).1]
  exact ⟨finite, fun some_ => pos (Int.natAbs_ne_zero.mpr some_)⟩

theorem F64.isNan_ofMagnitude (negative : Bool) {m : Nat} (bound : m ≤ 2047 * 2 ^ 52) :
    (F64.ofMagnitude negative m).isNan = false := by
  have magnitude_ : (F64.ofMagnitude negative m).magnitude = m := by
    unfold ofMagnitude magnitude
    cases negative with
    | true =>
      rw [if_pos rfl, UInt64.toNat_ofNat_of_lt' (by show _ < 2 ^ 64; omega)]
      omega
    | false =>
      rw [if_neg (by decide), UInt64.toNat_ofNat_of_lt' (by show _ < 2 ^ 64; omega)]
      omega
  rw [isNan, magnitude_]
  exact decide_eq_false (not_lt.mpr bound)

theorem nearestMagnitude_le (n d : Nat) : nearestMagnitude n d ≤ 2047 * 2 ^ 52 :=
  Nat.min_le_left _ _

theorem F64.not_nan_of_finite {v : F64} (finite : v.magnitude < 2047 * 2 ^ 52) :
    v.isNan = false ∧ v.isInfinite = false :=
  ⟨decide_eq_false (by omega), decide_eq_false (by omega)⟩

/-- Only two opposite infinities add up to no number. -/
theorem F64.isNan_add {a b : F64} (number : a.isNan = false) (finite : b.magnitude < 2047 * 2 ^ 52) :
    (a.add b).isNan = false := by
  obtain ⟨numberB, finiteB⟩ := not_nan_of_finite finite
  unfold add
  rw [number, numberB, finiteB, if_neg (by decide)]
  split
  · rw [Bool.false_and, if_neg (by decide)]
    exact number
  · rw [if_neg (by decide)]
    dsimp only
    split
    · exact isNan_ofMagnitude _ (Nat.zero_le _)
    · exact isNan_ofMagnitude _ (nearestMagnitude_le _ _)

/-- A quotient by a finite number that is not zero is a number. -/
theorem F64.isNan_div {a b : F64} (number : a.isNan = false) (finite : b.magnitude < 2047 * 2 ^ 52)
    (nonzero : b.magnitude ≠ 0) : (a.div b).isNan = false := by
  obtain ⟨numberB, finiteB⟩ := not_nan_of_finite finite
  unfold div
  simp only [number, numberB, finiteB, Bool.or_self, Bool.false_eq_true, if_false, if_neg nonzero]
  split
  · exact isNan_ofMagnitude _ (by decide)
  · exact isNan_ofMagnitude _ (nearestMagnitude_le _ _)

/-- Nothing finite becomes of an infinity or of no number. -/
theorem F64.add_overflow {a b : F64}
    (overflow : 2047 * 2 ^ 52 ≤ a.magnitude ∨ 2047 * 2 ^ 52 ≤ b.magnitude) :
    2047 * 2 ^ 52 ≤ (a.add b).magnitude := by
  have noNumber : 2047 * 2 ^ 52 ≤ nan.magnitude := by decide
  have beyond {v : F64} (number : v.isNan = false) (infinite : ¬ v.isInfinite = true) :
      v.magnitude < 2047 * 2 ^ 52 := by
    have := of_decide_eq_false number
    have := of_decide_eq_false ((Bool.not_eq_true _).mp infinite)
    omega
  have top {v : F64} (infinite : v.isInfinite = true) : 2047 * 2 ^ 52 ≤ v.magnitude :=
    (of_decide_eq_true infinite).ge
  unfold add
  split
  · exact noNumber
  · rename_i numbers
    simp only [Bool.or_eq_true, not_or, Bool.not_eq_true] at numbers
    split
    · rename_i infinite
      split
      · exact noNumber
      · exact top infinite
    · rename_i finiteA
      split
      · rename_i infinite
        exact top infinite
      · rename_i finiteB
        have lessA := beyond numbers.1 finiteA
        have lessB := beyond numbers.2 finiteB
        omega

theorem F64.magnitude_neg (v : F64) : v.neg.magnitude = v.magnitude := by
  have bound : v.magnitude < 2 ^ 63 := Nat.mod_lt _ (by decide)
  unfold neg ofMagnitude
  generalize v.magnitude = m at bound
  unfold magnitude
  split
  · rw [UInt64.toNat_ofNat_of_lt' (by show _ < 2 ^ 64; omega)]
    omega
  · rw [UInt64.toNat_ofNat_of_lt' (by show _ < 2 ^ 64; omega)]
    exact Nat.mod_eq_of_lt bound

end Scalar
