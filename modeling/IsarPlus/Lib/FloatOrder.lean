import IsarPlus.Lib.FloatArithmetic
import IsarPlus.Lib.FloatCasts
import Mathlib.Order.Monotone.Basic
import Mathlib.Order.Basic

/-!
# The order of floats across their widths

Widening keeps the order of 32-bit floats, rounding never reverses the order of 64-bit floats, and
the neighbour of a float is the next one in its order.
-/

namespace Scalar

/-! ## Rounding -/

theorem roundShift_mono {m n : Nat} (s : Nat) (h : m ≤ n) : roundShift m s ≤ roundShift n s := by
  have positive : 0 < 2 ^ s := Nat.two_pow_pos s
  have quotients : m / 2 ^ s ≤ n / 2 ^ s := Nat.div_le_div_right h
  unfold roundShift
  simp only
  rcases Nat.lt_or_eq_of_le quotients with less | same
  · split <;> split <;> omega
  · have left := Nat.div_add_mod m (2 ^ s)
    have right := Nat.div_add_mod n (2 ^ s)
    have remainders : m % 2 ^ s ≤ n % 2 ^ s := by
      rw [same] at left
      omega
    rw [same]
    split
    · rw [if_pos (by omega)]
    · split <;> omega

/-- Halves of a unit twice as large are as many. -/
theorem roundShift_double (m s : Nat) : roundShift (2 * m) (s + 1) = roundShift m s := by
  have unit : 2 ^ (s + 1) = 2 * 2 ^ s := by rw [Nat.pow_succ, Nat.mul_comm]
  have quotient : 2 * m / 2 ^ (s + 1) = m / 2 ^ s := by
    rw [unit, Nat.mul_div_mul_left _ _ (by decide)]
  have remainder : 2 * m % 2 ^ (s + 1) = 2 * (m % 2 ^ s) := by
    rw [unit, Nat.mul_mod_mul_left]
  unfold roundShift
  simp only [quotient, remainder]
  congr 1
  rw [unit]
  exact propext (by omega)

theorem roundShift_small {m s : Nat} (h : 2 * m < 2 ^ s) : roundShift m s = 0 := by
  have quotient : m / 2 ^ s = 0 := Nat.div_eq_of_lt (by omega)
  have remainder : m % 2 ^ s = m := Nat.mod_eq_of_lt (by omega)
  unfold roundShift
  simp only [quotient, remainder]
  rw [if_neg (by omega)]

/-! ## Magnitudes -/

/-- The magnitude of an `f32` as an `f64`. -/
def widen (mag : Nat) : Nat := widened (mag / 2 ^ 23) (mag % 2 ^ 23)

/-- The magnitude of an `f64` as an `f32`. -/
def narrow (mag : Nat) : Nat := narrowed (mag / 2 ^ 52) (mag % 2 ^ 52)

theorem narrowed_zero {frac : Nat} (bound : frac < 2 ^ 52) : narrowed 0 frac = 0 := by
  by_cases zero : frac = 0
  · subst zero
    decide
  · have small : Nat.log2 frac < 52 := (Nat.log2_lt zero).mpr bound
    have shift : max (Nat.log2 frac - 23) (926 - max 0 1) = 925 := by omega
    have tiny {s : Nat} (large : 53 ≤ s) : 2 * frac < 2 ^ s :=
      lt_of_lt_of_le (show 2 * frac < 2 ^ 53 by omega) (Nat.pow_le_pow_right (by decide) large)
    simp only [narrowed, if_true, if_neg (show (0 : Nat) ≠ 2047 by decide), if_neg zero, shift,
      roundShift_small (tiny (show 53 ≤ 925 by decide))]
    decide

theorem narrowed_number {e frac : Nat} (pos : 0 < e) (lt : e < 2047) (bound : frac < 2 ^ 52) :
    narrowed e frac = min (255 * 2 ^ 23) ((max 29 (926 - e) + e - 926) * 2 ^ 23 +
      roundShift (2 ^ 52 + frac) (max 29 (926 - e))) := by
  have exp : max e 1 = e := by omega
  simp only [narrowed, if_neg (show e ≠ 0 by omega), log2_of_implicit bound, exp,
    if_neg (show e ≠ 2047 by omega), if_neg (show 2 ^ 52 + frac ≠ 0 by omega)]

theorem narrow_le_succ {n : Nat} (h : n < 2047 * 2 ^ 52) : narrow n ≤ narrow (n + 1) := by
  have frac : n % 2 ^ 52 < 2 ^ 52 := Nat.mod_lt _ (by decide)
  have exponent : n / 2 ^ 52 < 2047 := by omega
  unfold narrow
  rcases Nat.eq_zero_or_pos (n / 2 ^ 52) with zero | pos
  · rw [zero, narrowed_zero frac]
    exact Nat.zero_le _
  by_cases last : n % 2 ^ 52 + 1 = 2 ^ 52
  · -- The next number is the first one with the next exponent.
    have quotient : (n + 1) / 2 ^ 52 = n / 2 ^ 52 + 1 := by omega
    have remainder : (n + 1) % 2 ^ 52 = 0 := by omega
    rw [quotient, remainder]
    generalize n / 2 ^ 52 = e at exponent pos
    generalize n % 2 ^ 52 = f at frac last
    by_cases greatest : e + 1 = 2047
    · have infinite : narrowed (e + 1) 0 = 255 * 2 ^ 23 := by
        rw [greatest]
        decide
      rw [infinite, narrowed_number pos exponent frac]
      exact Nat.min_le_left _ _
    · rw [narrowed_number pos exponent frac,
        narrowed_number (Nat.succ_pos e) (show e + 1 < 2047 by omega) (by decide)]
      have upTo (s : Nat) : roundShift (2 ^ 52 + f) s ≤ roundShift (2 * 2 ^ 52) s :=
        roundShift_mono s (by omega)
      by_cases normal : 897 ≤ e
      · have shift : max 29 (926 - e) = 29 := by omega
        have shift' : max 29 (926 - (e + 1)) = 29 := by omega
        have full : roundShift (2 * 2 ^ 52) 29 = 2 ^ 23 + 2 ^ 23 := by
          rw [show 2 * 2 ^ 52 = (2 ^ 23 + 2 ^ 23) * 2 ^ 29 by omega, roundShift_mul]
        have half : roundShift (2 ^ 52 + 0) 29 = 2 ^ 23 := by
          rw [show 2 ^ 52 + 0 = 2 ^ 23 * 2 ^ 29 by omega, roundShift_mul]
        have below := full ▸ upTo 29
        have next : 29 + (e + 1) - 926 = 29 + e - 926 + 1 := by omega
        rw [shift, shift', half, next]
        refine min_le_min le_rfl ?_
        rw [Nat.succ_mul (29 + e - 926), Nat.add_assoc]
        exact Nat.add_le_add_left below _
      · have shift : max 29 (926 - e) = 925 - e + 1 := by omega
        have shift' : max 29 (926 - (e + 1)) = 925 - e := by omega
        have := upTo (925 - e + 1)
        rw [roundShift_double] at this
        have same : 925 - e + 1 + e - 926 = 925 - e + (e + 1) - 926 := by omega
        rw [shift, shift', same]
        exact min_le_min le_rfl (Nat.add_le_add_left this _)
  · have quotient : (n + 1) / 2 ^ 52 = n / 2 ^ 52 := by omega
    have remainder : (n + 1) % 2 ^ 52 = n % 2 ^ 52 + 1 := by omega
    rw [quotient, remainder, narrowed_number pos exponent frac,
      narrowed_number pos exponent (by omega)]
    have := roundShift_mono (max 29 (926 - n / 2 ^ 52))
      (show 2 ^ 52 + n % 2 ^ 52 ≤ 2 ^ 52 + (n % 2 ^ 52 + 1) by omega)
    omega

theorem narrow_mono {m n : Nat} (h : m ≤ n) (bound : n ≤ 2047 * 2 ^ 52) : narrow m ≤ narrow n := by
  induction h with
  | refl => exact le_rfl
  | @step n _ ih => exact (ih (by omega)).trans (narrow_le_succ (by omega))

theorem widen_le_and_narrow_widen {m : Nat} (h : m ≤ 255 * 2 ^ 23) :
    widen m ≤ 2047 * 2 ^ 52 ∧ narrow (widen m) = m := by
  obtain ⟨bound, -, back⟩ := narrowed_widened (e := m / 2 ^ 23) (m := m % 2 ^ 23) (by omega)
    (Nat.mod_lt _ (by decide))
  exact ⟨bound, back.trans (by omega)⟩

theorem widen_lt_widen {m n : Nat} (h : m < n) (bound : n ≤ 255 * 2 ^ 23) : widen m < widen n := by
  obtain ⟨boundM, backM⟩ := widen_le_and_narrow_widen (show m ≤ 255 * 2 ^ 23 by omega)
  obtain ⟨-, backN⟩ := widen_le_and_narrow_widen bound
  by_contra le
  have := narrow_mono (not_lt.mp le) boundM
  omega

theorem widen_lt_widen_iff {m n : Nat} (hm : m ≤ 255 * 2 ^ 23) (hn : n ≤ 255 * 2 ^ 23) :
    widen m < widen n ↔ m < n := by
  refine ⟨fun h => ?_, fun h => widen_lt_widen h hn⟩
  by_contra le
  rcases Nat.lt_or_eq_of_le (not_lt.mp le) with less | same
  · exact Nat.lt_asymm h (widen_lt_widen less hm)
  · rw [same] at h
    exact Nat.lt_irrefl _ h

/-- What is rounded to `narrow m` lies between the neighbours of the rounded number. -/
theorem lt_widen_succ {m : Nat} (bound : m ≤ 2047 * 2 ^ 52) (finite : narrow m < 255 * 2 ^ 23) :
    m < widen (narrow m + 1) := by
  obtain ⟨-, back⟩ := widen_le_and_narrow_widen (show narrow m + 1 ≤ 255 * 2 ^ 23 by omega)
  by_contra le
  have := narrow_mono (not_lt.mp le) bound
  omega

theorem narrow_le (m : Nat) (bound : m ≤ 2047 * 2 ^ 52) : narrow m ≤ 255 * 2 ^ 23 := by
  have top : narrow (2047 * 2 ^ 52) = 255 * 2 ^ 23 := by decide
  rw [← top]
  exact narrow_mono bound le_rfl

theorem widen_pred_lt {m : Nat} (bound : m ≤ 2047 * 2 ^ 52) (pos : 0 < narrow m) :
    widen (narrow m - 1) < m := by
  have top := narrow_le m bound
  obtain ⟨boundW, back⟩ := widen_le_and_narrow_widen (show narrow m - 1 ≤ 255 * 2 ^ 23 by omega)
  by_contra le
  have := narrow_mono (not_lt.mp le) boundW
  omega

/-! ## Widening -/

/-- Magnitudes in the same order give signed numbers in the same order. -/
theorem signed_lt_iff {m n m' n' : Nat} (less : m' < n' ↔ m < n) (more : n' < m' ↔ n < m)
    (posM : 0 < m' ↔ 0 < m) (posN : 0 < n' ↔ 0 < n) (s t : Bool) :
    (if s then -(m' : Int) else m') < (if t then -(n' : Int) else n') ↔
      (if s then -(m : Int) else m) < (if t then -(n : Int) else n) := by
  cases s <;> cases t <;> simp only [Bool.false_eq_true, if_true, if_false] <;> omega

namespace F32

theorem magnitude_le {v : F32} (number : v.isNan = false) : v.magnitude ≤ 255 * 2 ^ 23 :=
  not_lt.mp (of_decide_eq_false number)

theorem rank_toF64 {v : F32} (number : v.isNan = false) :
    v.toF64.rank = if v.isNegative then -(widen v.magnitude : Int) else widen v.magnitude := by
  obtain ⟨wide, sign⟩ := magnitude_toF64 number
  rw [F64.rank, wide, sign]
  rfl

theorem isNan_toF64 (v : F32) : v.toF64.isNan = v.isNan := by
  cases nan : v.isNan with
  | true =>
    have same : v.toF64 = F64.nan := by rw [toF64, if_pos nan]
    rw [same]
    rfl
  | false =>
    have bound := (widen_le_and_narrow_widen (magnitude_le nan)).1
    rw [F64.isNan, (magnitude_toF64 nan).1]
    exact decide_eq_false (not_lt.mpr bound)

/-- Widening keeps the order of numbers. -/
theorem rank_toF64_lt_iff {a b : F32} (ha : a.isNan = false) (hb : b.isNan = false) :
    a.toF64.rank < b.toF64.rank ↔ a.rank < b.rank := by
  have boundA := magnitude_le ha
  have boundB := magnitude_le hb
  have less := widen_lt_widen_iff boundA boundB
  have more := widen_lt_widen_iff boundB boundA
  have zero : widen 0 = 0 := by decide
  have posA := widen_lt_widen_iff (Nat.zero_le _) boundA
  have posB := widen_lt_widen_iff (Nat.zero_le _) boundB
  rw [zero] at posA posB
  rw [rank_toF64 ha, rank_toF64 hb, rank, rank]
  exact signed_lt_iff less more posA posB _ _

theorem partialCmp_toF64 (a b : F32) : a.toF64.partialCmp b.toF64 = a.partialCmp b := by
  unfold F64.partialCmp partialCmp
  rw [isNan_toF64, isNan_toF64]
  by_cases nan : (a.isNan || b.isNan) = true
  · rw [if_pos nan, if_pos nan]
  · obtain ⟨ha, hb⟩ := Bool.or_eq_false_iff.mp (Bool.eq_false_iff.mpr nan)
    rw [if_neg nan, if_neg nan]
    apply congrArg some
    unfold cmp cmpUsing
    simp only [rank_toF64_lt_iff ha hb, rank_toF64_lt_iff hb ha]

/-! ## Neighbours -/

theorem rank_infinity : infinity.rank = 255 * 2 ^ 23 := by decide

theorem eq_infinity_of_rank {v : F32} (number : v.isNan = false) (h : 255 * 2 ^ 23 ≤ v.rank) :
    v = infinity := by
  have bound := magnitude_le number
  have lt := v.bits.toNat_lt
  unfold rank isNegative at h
  split at h
  · omega
  · rename_i positive
    have small : v.bits.toNat < 2 ^ 31 := by
      by_contra large
      exact positive (decide_eq_true (not_lt.mp large))
    have bits : v.bits.toNat = (0x7f800000 : UInt32).toNat := by
      have : (0x7f800000 : UInt32).toNat = 255 * 2 ^ 23 := rfl
      unfold magnitude at h bound
      omega
    cases v
    exact congrArg F32.mk (UInt32.toNat_inj.mp bits)

/-- The neighbour above is the next number. -/
theorem rank_nextUp {v : F32} (number : v.isNan = false) (below : v.rank < 255 * 2 ^ 23) :
    v.nextUp.isNan = false ∧ v.nextUp.rank = v.rank + 1 := by
  have bound := magnitude_le number
  have lt := v.bits.toNat_lt
  have finite : (v == infinity) = false := by
    refine beq_eq_false_iff_ne.mpr fun same => ?_
    rw [same, rank_infinity] at below
    exact lt_irrefl _ below
  unfold nextUp
  rw [number, finite, Bool.or_self, if_neg (by decide)]
  by_cases zero : v.magnitude = 0
  · have rank_zero : v.rank = 0 := by
      unfold rank
      split <;> omega
    rw [if_pos zero, rank_zero]
    decide
  · have sign : v.isNegative = decide (2 ^ 31 ≤ v.bits.toNat) := rfl
    have size : v.magnitude = v.bits.toNat % 2 ^ 31 := rfl
    rw [if_neg zero]
    by_cases negative : 2 ^ 31 ≤ v.bits.toNat
    · have down : (v.bits - 1).toNat = v.bits.toNat - 1 := by
        rw [UInt32.toNat_sub_of_le _ _ (by rw [UInt32.le_iff_toNat_le]; show 1 ≤ _; omega)]
        rfl
      rw [if_pos (by rw [sign]; exact decide_eq_true negative)]
      unfold isNan rank isNegative magnitude
      simp only [down]
      rw [decide_eq_true negative, decide_eq_true (show 2 ^ 31 ≤ v.bits.toNat - 1 by omega),
        if_pos rfl, if_pos rfl]
      exact ⟨decide_eq_false (by omega), by omega⟩
    · have small : v.rank = v.magnitude := by
        rw [rank, sign, decide_eq_false negative, if_neg (by decide)]
      have up : (v.bits + 1).toNat = v.bits.toNat + 1 := by
        rw [UInt32.toNat_add]
        show (v.bits.toNat + 1) % 2 ^ 32 = _
        omega
      rw [if_neg (by rw [sign, decide_eq_false negative]; decide), small]
      unfold isNan rank isNegative magnitude
      simp only [up]
      rw [decide_eq_false (show ¬ 2 ^ 31 ≤ v.bits.toNat + 1 by omega), if_neg (by decide)]
      exact ⟨decide_eq_false (by omega), by omega⟩

end F32

/-! ## Narrowing -/

namespace F64

theorem magnitude_le {v : F64} (number : v.isNan = false) : v.magnitude ≤ 2047 * 2 ^ 52 :=
  not_lt.mp (of_decide_eq_false number)

theorem magnitude_toF32 {v : F64} (number : v.isNan = false) :
    v.toF32.magnitude = narrow v.magnitude ∧ v.toF32.isNegative = v.isNegative := by
  have bound := narrow_le v.magnitude (magnitude_le number)
  have eq : v.toF32 = ⟨UInt32.ofNat (if v.isNegative then 2 ^ 31 + narrow v.magnitude
      else narrow v.magnitude)⟩ := toF32_eq number
  rw [eq]
  generalize narrow v.magnitude = mag at bound
  cases v.isNegative
  · have toNat : (UInt32.ofNat mag).toNat = mag := UInt32.toNat_ofNat_of_lt' (by
      show _ < 2 ^ 32
      omega)
    simp only [F32.magnitude, F32.isNegative, toNat, Bool.false_eq_true, if_false]
    exact ⟨Nat.mod_eq_of_lt (by omega), decide_eq_false (by omega)⟩
  · have toNat : (UInt32.ofNat (2 ^ 31 + mag)).toNat = 2 ^ 31 + mag :=
      UInt32.toNat_ofNat_of_lt' (by
        show _ < 2 ^ 32
        omega)
    simp only [F32.magnitude, F32.isNegative, toNat, if_true]
    exact ⟨by omega, decide_eq_true (by omega)⟩

theorem isNan_toF32 {v : F64} (number : v.isNan = false) : v.toF32.isNan = false := by
  rw [F32.isNan, (magnitude_toF32 number).1]
  exact decide_eq_false (not_lt.mpr (narrow_le _ (magnitude_le number)))

theorem eq_infinity_of_rank {v : F64} (number : v.isNan = false) (h : 2047 * 2 ^ 52 ≤ v.rank) :
    v = infinity := by
  have bound := magnitude_le number
  have lt := v.bits.toNat_lt
  unfold rank isNegative at h
  split at h
  · omega
  · rename_i positive
    have small : v.bits.toNat < 2 ^ 63 := by
      by_contra large
      exact positive (decide_eq_true (not_lt.mp large))
    have bits : v.bits.toNat = (0x7ff0000000000000 : UInt64).toNat := by
      have : (0x7ff0000000000000 : UInt64).toNat = 2047 * 2 ^ 52 := rfl
      unfold magnitude at h bound
      omega
    cases v
    exact congrArg F64.mk (UInt64.toNat_inj.mp bits)

/-- The neighbour in the smaller width lies strictly above, however the number is rounded. -/
theorem rank_lt_nextUp {v : F64} (number : v.isNan = false) (below : v.rank < 2047 * 2 ^ 52) :
    v.toF32.nextUp.isNan = false ∧ v.rank < v.toF32.nextUp.toF64.rank := by
  have bound := magnitude_le number
  have number' := isNan_toF32 number
  obtain ⟨size, sign⟩ := magnitude_toF32 number
  have rank32 : v.toF32.rank = if v.isNegative then -(narrow v.magnitude : Int)
      else narrow v.magnitude := by
    rw [F32.rank, size, sign]
  by_cases infinite : 255 * 2 ^ 23 ≤ v.toF32.rank
  · have same := F32.eq_infinity_of_rank number' infinite
    rw [same]
    have stays : F32.infinity.nextUp = F32.infinity := by decide
    have top : F32.infinity.toF64.rank = 2047 * 2 ^ 52 := by decide
    rw [stays, top]
    exact ⟨rfl, below⟩
  · obtain ⟨numberN, rankN⟩ := F32.rank_nextUp number' (not_le.mp infinite)
    refine ⟨numberN, ?_⟩
    have boundN := F32.magnitude_le numberN
    rw [F32.rank_toF64 numberN]
    rw [rank32] at rankN infinite
    rw [F32.rank] at rankN
    unfold rank
    cases negative : v.isNegative with
    | false =>
      rw [negative] at rankN infinite
      simp only [Bool.false_eq_true, if_false] at rankN infinite ⊢
      have positive : v.toF32.nextUp.isNegative = false := by
        cases neg : v.toF32.nextUp.isNegative with
        | false => rfl
        | true =>
          rw [neg] at rankN
          simp only [if_true] at rankN
          omega
      rw [positive] at rankN ⊢
      simp only [Bool.false_eq_true, if_false] at rankN ⊢
      have next : v.toF32.nextUp.magnitude = narrow v.magnitude + 1 := by omega
      have := lt_widen_succ bound (by omega)
      rw [next]
      exact Int.ofNat_lt.mpr this
    | true =>
      rw [negative] at rankN
      simp only [if_true] at rankN ⊢
      by_cases zero : narrow v.magnitude = 0
      · have positive : v.toF32.nextUp.isNegative = false := by
          cases neg : v.toF32.nextUp.isNegative with
          | false => rfl
          | true =>
            rw [neg] at rankN
            simp only [if_true] at rankN
            omega
        rw [positive] at rankN ⊢
        simp only [Bool.false_eq_true, if_false] at rankN ⊢
        have one : v.toF32.nextUp.magnitude = 1 := by omega
        have : 0 < widen 1 := by decide
        rw [one]
        omega
      · have smaller := widen_pred_lt bound (Nat.pos_of_ne_zero zero)
        have next : v.toF32.nextUp.magnitude = narrow v.magnitude - 1 := by
          split at rankN <;> omega
        rw [next]
        split <;> omega

end F64

end Scalar
