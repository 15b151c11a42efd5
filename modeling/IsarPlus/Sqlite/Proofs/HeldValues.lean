import IsarPlus.Lib.FloatScale
import IsarPlus.Lib.SelectAnswers
import IsarPlus.Native.Proofs.MinMax
import IsarPlus.Sqlite.QueryBuilder

/-!
# Values of columns

What the column of a property holds, and the value of the property that it stands for. A column of
floats holds the floats that are integers as integers. SQLite orders the values of a column as the
values of the property are ordered.
-/

namespace IsarPlus.Sqlite
open Scalar Sql

/-- A value that the column of a property holds: null or what becomes of a value that is bound to it.
A NaN is bound as null. -/
def HeldAs (t : DataType) (value : Value) : Prop :=
  value = .null ∨
    match t with
    | .byte | .int | .long => ∃ v, value = .integer v
    | .float | .double => ∃ r : F64, r.isNan = false ∧ value = columnValue t (.real r)
    | .string => ∃ s, value = .text s
    | _ => False

def IsReal (t : DataType) : Prop := t = .float ∨ t = .double

instance (t : DataType) : Decidable (IsReal t) := inferInstanceAs (Decidable (_ ∨ _))

/-- The value of a property whose column holds the value. -/
def heldValue (t : DataType) : Value → Option IsarValue
  | .integer v => some (if IsReal t then .real (F64.ofInt v.toInt) else .integer v)
  | .real v => some (.real v)
  | .text s => some (.string s)
  | .null | .blob _ => none

/-- Where a value is in the order of the values of its column. -/
def columnKey : Value → Int ×ₗ List Char
  | .integer v => toLex (v.toInt * 2 ^ 1074, [])
  | .real v => toLex (scaled v, [])
  | .text s => toLex (0, s)
  | .null | .blob _ => toLex (0, [])

/-! ## Floats in columns -/

/-- The float is an integer that SQLite stores as one. -/
def StoredAsInteger (r : F64) (n : Int) : Prop :=
  scaled r = n * 2 ^ 1074 ∧ -2 ^ 63 < n ∧ n < 2 ^ 63 - 1

theorem isFinite_of_storedAsInteger {r : F64} {n : Int} (number : r.isNan = false)
    (h : StoredAsInteger r n) : isFinite r = true := by
  obtain ⟨value, low, high⟩ := h
  have bound := F64.magnitude_le number
  apply decide_eq_true
  by_contra infinite
  have top : r.magnitude = 2047 * 2 ^ 52 := by omega
  have size : scaledMagnitude (2047 * 2 ^ 52) = 2 ^ 1024 * 2 ^ 1074 := by decide +kernel
  have abs : n.natAbs = 2 ^ 1024 := by
    have := congrArg Int.natAbs value
    rw [scaled_eq, top, size, Int.natAbs_mul] at this
    apply Nat.eq_of_mul_eq_mul_right (Nat.two_pow_pos 1074)
    refine Eq.trans this.symm ?_
    split
    · rw [Int.natAbs_neg, Int.natAbs_natCast]
    · rw [Int.natAbs_natCast]
  have large : 2 ^ 63 < 2 ^ 1024 := Nat.pow_lt_pow_right (by decide) (by decide)
  omega

/-- What becomes of a float in a column of floats. -/
theorem columnValue_real {t : DataType} (real : IsReal t) {r : F64} (number : r.isNan = false) :
    (∃ n, StoredAsInteger r n ∧ columnValue t (.real r) = .integer (Int64.ofInt n)) ∨
      ((∀ n, ¬ StoredAsInteger r n) ∧ columnValue t (.real r) = .real r) := by
  have eq : columnValue t (.real r) =
      if isFinite r ∧ scaled r = scaled r / 2 ^ 1074 * 2 ^ 1074 ∧ -2 ^ 63 < scaled r / 2 ^ 1074 ∧
        scaled r / 2 ^ 1074 < 2 ^ 63 - 1 then .integer (Int64.ofInt (scaled r / 2 ^ 1074))
      else .real r := by
    rcases real with rfl | rfl <;> rfl
  rw [eq]
  split
  · rename_i h
    exact Or.inl ⟨_, h.2, rfl⟩
  · rename_i h
    refine Or.inr ⟨fun n stored => h ?_, rfl⟩
    have quotient : scaled r / 2 ^ 1074 = n := by
      rw [stored.1]
      exact Int.mul_ediv_cancel n (by positivity)
    rw [quotient]
    exact ⟨isFinite_of_storedAsInteger number stored, stored⟩

theorem toInt_ofInt_of_stored {r : F64} {n : Int} (h : StoredAsInteger r n) :
    (Int64.ofInt n).toInt = n :=
  Int64.toInt_ofInt_of_le h.2.1.le (lt_trans h.2.2 (by decide))

/-- A value in a column of floats, with the float that it stands for. -/
theorem heldAs_real {t : DataType} (real : IsReal t) {value : Value} (held : HeldAs t value)
    (some_ : value ≠ .null) :
    (∃ v : Int64, value = .integer v ∧ scaled (F64.ofInt v.toInt) = v.toInt * 2 ^ 1074 ∧
        (F64.ofInt v.toInt).isNan = false ∧ -2 ^ 63 < v.toInt ∧ v.toInt < 2 ^ 63 - 1) ∨
      ∃ r, value = .real r ∧ r.isNan = false ∧ ∀ n, ¬ StoredAsInteger r n := by
  obtain ⟨r, number, eq⟩ : ∃ r : F64, r.isNan = false ∧ value = columnValue t (.real r) := by
    rcases real with rfl | rfl <;> exact held.resolve_left some_
  rcases columnValue_real real number with ⟨n, stored, column⟩ | ⟨apart, column⟩
  · have same := toInt_ofInt_of_stored stored
    have bound : n.natAbs < 2 ^ 64 := by
      have := stored.2
      omega
    obtain ⟨exact_, number'⟩ := scaled_ofInt bound stored.1
    refine Or.inl ⟨Int64.ofInt n, eq.trans column, ?_⟩
    rw [same]
    exact ⟨exact_, number', stored.2⟩
  · exact Or.inr ⟨r, eq.trans column, number, apart⟩

/-! ## Order -/

theorem cmp_mul_unit (m n : Int) : cmp (m * 2 ^ 1074) (n * 2 ^ 1074) = cmp m n := by
  have less (m n : Int) : m * 2 ^ 1074 < n * 2 ^ 1074 ↔ m < n :=
    Int.mul_lt_mul_right (by positivity)
  unfold cmp cmpUsing
  rw [if_congr (less m n) rfl (if_congr (less n m) rfl rfl)]

/-- What the values of a column are compared by. -/
structure OrderedValues (t : DataType) (a b : Value) : Prop where
  compare : a.compare false b = some (cmp (columnKey a) (columnKey b))
  partialCmp : ∃ v w, heldValue t a = some v ∧ heldValue t b = some w ∧
    v.partialCmp w = some (cmp (columnKey a) (columnKey b))

theorem ordered_real {t : DataType} (real : IsReal t) {a b : Value} (ha : HeldAs t a)
    (hb : HeldAs t b) (someA : a ≠ .null) (someB : b ≠ .null) : OrderedValues t a b := by
  have reals {v w : F64} (hv : v.isNan = false) (hw : w.isNan = false) :
      (IsarValue.real v).partialCmp (.real w) = some (cmp (scaled v) (scaled w)) := by
    show v.partialCmp w = _
    rw [F64.partialCmp, hv, hw, if_neg (by decide), cmp_scaled]
  have held (v : Int64) : heldValue t (.integer v) = some (.real (F64.ofInt v.toInt)) := by
    rw [heldValue, if_pos real]
  rcases heldAs_real real ha someA with ⟨v, rfl, valueA, numberA, -⟩ | ⟨r, rfl, numberA, -⟩ <;>
    rcases heldAs_real real hb someB with ⟨w, rfl, valueB, numberB, -⟩ | ⟨s, rfl, numberB, -⟩
  · refine ⟨?_, _, _, held v, held w, ?_⟩
    · show some (cmp v.toInt w.toInt) = _
      rw [columnKey, columnKey, cmp_toLex_left, cmp_mul_unit]
    · rw [reals numberA numberB, valueA, valueB, columnKey, columnKey, cmp_toLex_left]
  · refine ⟨?_, _, _, held v, rfl, ?_⟩
    · show some (cmp (v.toInt * 2 ^ 1074) (scaled s)) = _
      rw [columnKey, columnKey, cmp_toLex_left]
    · rw [reals numberA numberB, valueA, columnKey, columnKey, cmp_toLex_left]
  · refine ⟨?_, _, _, rfl, held w, ?_⟩
    · show some (cmp (scaled r) (w.toInt * 2 ^ 1074)) = _
      rw [columnKey, columnKey, cmp_toLex_left]
    · rw [reals numberA numberB, valueB, columnKey, columnKey, cmp_toLex_left]
  · refine ⟨?_, _, _, rfl, rfl, ?_⟩
    · show some (cmp r.rank s.rank) = _
      rw [columnKey, columnKey, cmp_toLex_left, cmp_scaled]
    · rw [reals numberA numberB, columnKey, columnKey, cmp_toLex_left]

/-- SQLite compares the values of a column as the values of the property compare. -/
theorem ordered_of_held {t : DataType} {a b : Value} (ha : HeldAs t a) (hb : HeldAs t b)
    (someA : a ≠ .null) (someB : b ≠ .null) : OrderedValues t a b := by
  by_cases real : IsReal t
  · exact ordered_real real ha hb someA someB
  · have first := ha.resolve_left someA
    have second := hb.resolve_left someB
    have integers (v w : Int64) : OrderedValues t (.integer v) (.integer w) := by
      have held (v : Int64) : heldValue t (.integer v) = some (.integer v) := by
        rw [heldValue, if_neg real]
      refine ⟨?_, _, _, held v, held w, ?_⟩
      · show some (cmp v.toInt w.toInt) = _
        rw [columnKey, columnKey, cmp_toLex_left, cmp_mul_unit]
      · show some (cmp v.toInt w.toInt) = _
        rw [columnKey, columnKey, cmp_toLex_left, cmp_mul_unit]
    cases t with
    | byte | int | long =>
      obtain ⟨v, rfl⟩ := first
      obtain ⟨w, rfl⟩ := second
      exact integers v w
    | float => exact absurd (Or.inl rfl) real
    | double => exact absurd (Or.inr rfl) real
    | string =>
      obtain ⟨s, rfl⟩ := first
      obtain ⟨s', rfl⟩ := second
      refine ⟨?_, _, _, rfl, rfl, ?_⟩
      · show some (cmp s s') = _
        rw [columnKey, columnKey, cmp_toLex_right]
        exact congrArg some (Native.cmp_congr _ _ s s')
      · show some (cmp s s') = _
        rw [columnKey, columnKey, cmp_toLex_right]
        exact congrArg some (Native.cmp_congr _ _ s s')
    | _ => cases first

/-- Different values of a column are told apart. -/
theorem eq_of_columnKey {t : DataType} {a b : Value} (ha : HeldAs t a) (hb : HeldAs t b)
    (someA : a ≠ .null) (someB : b ≠ .null) (same : columnKey a = columnKey b) : a = b := by
  have integers {v w : Int64} (same : columnKey (.integer v) = columnKey (.integer w)) :
      Value.integer v = .integer w := by
    have units : v.toInt * 2 ^ 1074 = w.toInt * 2 ^ 1074 := congrArg Prod.fst same
    exact congrArg _ (Int64.toInt_inj.mp (Int.eq_of_mul_eq_mul_right (by positivity) units))
  by_cases real : IsReal t
  · rcases heldAs_real real ha someA with ⟨v, rfl, -, -, rangeA⟩ | ⟨r, rfl, -, apartA⟩ <;>
      rcases heldAs_real real hb someB with ⟨w, rfl, -, -, rangeB⟩ | ⟨s, rfl, -, apartB⟩
    · exact integers same
    · have value : v.toInt * 2 ^ 1074 = scaled s := congrArg Prod.fst same
      exact absurd ⟨value.symm, rangeA⟩ (apartB v.toInt)
    · have value : scaled r = w.toInt * 2 ^ 1074 := congrArg Prod.fst same
      exact absurd ⟨value, rangeB⟩ (apartA w.toInt)
    · have value : scaled r = scaled s := congrArg Prod.fst same
      have rank : r.rank = s.rank := by
        rw [← cmp_eq_eq_iff, ← cmp_scaled, value, cmp_self_eq_eq]
      refine congrArg _ (F64.eq_of_rank rank fun zero => apartA 0 ⟨?_, by decide, by decide⟩)
      rw [scaled_eq_zero zero, Int.zero_mul]
  · have first := ha.resolve_left someA
    have second := hb.resolve_left someB
    cases t with
    | byte | int | long =>
      obtain ⟨v, rfl⟩ := first
      obtain ⟨w, rfl⟩ := second
      exact integers same
    | float => exact absurd (Or.inl rfl) real
    | double => exact absurd (Or.inr rfl) real
    | string =>
      obtain ⟨s, rfl⟩ := first
      obtain ⟨s', rfl⟩ := second
      exact congrArg _ (congrArg Prod.snd same)
    | _ => cases first

end IsarPlus.Sqlite
