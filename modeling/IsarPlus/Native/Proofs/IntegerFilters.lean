import IsarPlus.Native.Proofs.ComparisonFilters
import Mathlib

/-!
# Integer comparison filters

What the compiled filters on bool, byte, int and long properties and on the id match, as a
statement about integers, and exactly which operands make them mean the comparison. The two null
sentinels are what the rest hangs on: a null bound is the least integer of the type (and for the
upper bound of a byte the greatest), and an operand out of range makes the filter constantly false.
-/

namespace IsarPlus.Native
open ByteBuffer Scalar

/-! ## Compiled bounds over the integers -/

/-- An operand as the compiler reads it for a type with values from `lo` to `hi`. -/
def meaning (lo hi null : Int) : WithBot Int → Option Int
  | none => some null
  | some n => if lo ≤ n ∧ n ≤ hi then some n else none

/-- The compiled bounds match the integer `x` of the type. -/
def Between (lo hi nullLower nullUpper : Int) (l : WithBot Int) (includeLower : Bool)
    (u : WithBot Int) (includeUpper : Bool) (x : Int) : Prop :=
  ∃ L U, meaning lo hi nullLower l = some L ∧ meaning lo hi nullUpper u = some U ∧
    (if includeLower then L ≤ x else L < x) ∧ (if includeUpper then x ≤ U else x < U)

/-- The compiled comparison matches the integer `x` of the type. -/
def Compiled (lo hi nullLower nullUpper : Int) (t : ConditionType) (l u : WithBot Int) (x : Int) :
    Prop :=
  match t with
  | .equal => Between lo hi nullLower nullUpper l true l true x
  | .greater => Between lo hi nullLower nullUpper l false hi true x
  | .greaterOrEqual => Between lo hi nullLower nullUpper l true hi true x
  | .less => Between lo hi nullLower nullUpper ⊥ true l false x
  | .lessOrEqual => Between lo hi nullLower nullUpper ⊥ true l true x
  | .between => Between lo hi nullLower nullUpper l true u true x
  | _ => False

@[simp] theorem meaning_bot (lo hi null : Int) : meaning lo hi null ⊥ = some null := rfl

@[simp] theorem meaning_coe (lo hi null n : Int) :
    meaning lo hi null (n : WithBot Int) = if lo ≤ n ∧ n ≤ hi then some n else none := rfl

/-- A stored integer whose least value `m` stands for null. -/
def nullAt (m x : Int) : WithBot Int := if x = m then ⊥ else x

/-- An operand that the compiler can read as a value from `m` to `M`. -/
def Readable (m M : Int) (l : WithBot Int) : Prop := l = ⊥ ∨ (m ≤ l ∧ l ≤ M)

/-- The operands that the comparison has are readable. -/
def OperandsReadable (m M : Int) (t : ConditionType) (l u : WithBot Int) : Prop :=
  Readable m M l ∧ (t = .between → Readable m M u)

/-- The inputs on which the filter on a type with null at its least value `m` is exact. With
readable operands it errs on null against the operand `m`, unless the comparison is `greater` or
`lessOrEqual`; otherwise it matches nothing. -/
def NullableExact (m M : Int) (t : ConditionType) (x l u : WithBot Int) : Prop :=
  (OperandsReadable m M t l u → x = ⊥ → l = m → t = .greater ∨ t = .lessOrEqual) ∧
    (¬ OperandsReadable m M t l u → ¬ t.Compares x l u)

/-- The inputs on which the filter on a type without null, with values from `m` to `M`, is exact.
With readable operands it errs on a null operand, which is read as `m` or as `M`; otherwise it
matches nothing. -/
def PlainExact (m M : Int) (t : ConditionType) (x l u : WithBot Int) : Prop :=
  (OperandsReadable m M t l u →
    match t with
    | .equal | .lessOrEqual => l ≠ ⊥
    | .greater => l = ⊥ → x ≠ m
    | .less => l = ⊥ → x = M
    | .between => u = ⊥ → x < l
    | _ => True) ∧
    (¬ OperandsReadable m M t l u → ¬ t.Compares x l u)

/-- The inputs on which the filter on the id is exact. The id is never null, but the least id `m` is
what a null operand is read as. -/
def IdExact (m M : Int) (t : ConditionType) (x l u : WithBot Int) : Prop :=
  (OperandsReadable m M t l u → x = m →
    match t with
    | .equal | .greater | .lessOrEqual => l ≠ ⊥
    | .between => u = ⊥ → m < l
    | _ => True) ∧
    (¬ OperandsReadable m M t l u → ¬ t.Compares x l u)

theorem nullable_exact_iff {m M x : Int} (hm : m ≤ x) (hM : x ≤ M) {t : ConditionType}
    (comparison : t.isComparison = true) (l u : WithBot Int) :
    (Compiled m M m m t l u x ↔ t.Compares (nullAt m x) l u) ↔
      NullableExact m M t (nullAt m x) l u := by
  by_cases h : x = m
  · subst h
    cases t <;> cases l <;> cases u <;>
      simp [Compiled, Between, ConditionType.Compares, ConditionType.isComparison, nullAt,
        NullableExact, OperandsReadable, Readable] at comparison ⊢ <;> omega
  · cases t <;> cases l <;> cases u <;>
      simp [Compiled, Between, ConditionType.Compares, ConditionType.isComparison, nullAt,
        NullableExact, OperandsReadable, Readable, h] at comparison ⊢ <;> omega

theorem plain_exact_iff {m M x : Int} (hm : m ≤ x) (hM : x ≤ M) {t : ConditionType}
    (comparison : t.isComparison = true) (l u : WithBot Int) :
    (Compiled m M m M t l u x ↔ t.Compares (x : WithBot Int) l u) ↔ PlainExact m M t x l u := by
  cases t <;> cases l <;> cases u <;>
    simp [Compiled, Between, ConditionType.Compares, ConditionType.isComparison, PlainExact,
      OperandsReadable, Readable] at comparison ⊢ <;> omega

theorem id_exact_iff {m M x : Int} (hm : m ≤ x) (hM : x ≤ M) {t : ConditionType}
    (comparison : t.isComparison = true) (l u : WithBot Int) :
    (Compiled m M m m t l u x ↔ t.Compares (x : WithBot Int) l u) ↔ IdExact m M t x l u := by
  cases t <;> cases l <;> cases u <;>
    simp [Compiled, Between, ConditionType.Compares, ConditionType.isComparison, IdExact,
      OperandsReadable, Readable] at comparison ⊢ <;> omega

/-! ## The compiler's arithmetic -/

/-- A machine integer type with the operations that the compiler uses on it. -/
structure IntegerType (α : Type) where
  val : α → Int
  lo : Int
  hi : Int
  read : IsarValue → Option α
  checkedAdd : α → Option α
  checkedSub : α → Option α
  range : ∀ a, lo ≤ val a ∧ val a ≤ hi
  exists_val : ∀ z, lo ≤ z → z ≤ hi → ∃ a, val a = z
  read_iff : ∀ n a, read (.integer n) = some a ↔ val a = n.toInt
  checkedAdd_iff : ∀ a b, checkedAdd a = some b ↔ val b = val a + 1
  checkedSub_iff : ∀ a b, checkedSub a = some b ↔ val b = val a - 1

def byteType : IntegerType UInt8 where
  val a := a.toNat
  lo := 0
  hi := 255
  read := IsarValue.u8?
  checkedAdd := checkedAddU8
  checkedSub := checkedSubU8
  range a := by have := a.toNat_lt; omega
  exists_val z h h' := ⟨UInt8.ofNat z.toNat, by simp [UInt8.toNat_ofNat']; omega⟩
  read_iff n a := by simp [IsarValue.u8?, IsarValue.i64?, toU8?_eq_some]
  checkedAdd_iff a b := checkedAddU8_eq_some
  checkedSub_iff a b := checkedSubU8_eq_some

def intType : IntegerType Int32 where
  val := Int32.toInt
  lo := -2 ^ 31
  hi := 2 ^ 31 - 1
  read := IsarValue.i32?
  checkedAdd := checkedAddI32
  checkedSub := checkedSubI32
  range a := by have := a.toInt_lt; have := a.le_toInt; omega
  exists_val z h h' := ⟨Int32.ofInt z, Int32.toInt_ofInt_of_le h (by omega)⟩
  read_iff n a := by simp [IsarValue.i32?, IsarValue.i64?, toI32?_eq_some]
  checkedAdd_iff a b := checkedAddI32_eq_some
  checkedSub_iff a b := checkedSubI32_eq_some

def longType : IntegerType Int64 where
  val := Int64.toInt
  lo := -2 ^ 63
  hi := 2 ^ 63 - 1
  read := IsarValue.i64?
  checkedAdd := checkedAddI64
  checkedSub := checkedSubI64
  range a := by have := a.toInt_lt; have := a.le_toInt; omega
  exists_val z h h' := ⟨Int64.ofInt z, Int64.toInt_ofInt_of_le h (by omega)⟩
  read_iff n a := by
    simp only [IsarValue.i64?, Option.some.injEq, ← Int64.toInt_inj]
    exact eq_comm
  checkedAdd_iff a b := checkedAddI64_eq_some
  checkedSub_iff a b := checkedSubI64_eq_some

/-- The integer that an operand stands for; false is 0 and true is 1. -/
def operandInteger : Option IsarValue → WithBot Int
  | some (.bool b) => ((if b then 1 else 0 : Int) : WithBot Int)
  | some (.integer n) => (n.toInt : WithBot Int)
  | _ => ⊥

/-- A null or integer operand. -/
def IsInteger : Option IsarValue → Prop
  | none | some (.integer _) => True
  | _ => False

namespace IntegerType

variable {α : Type} (T : IntegerType α)

theorem operand_iff {null : α} {value : Option IsarValue} (integer : IsInteger value) {L : Int} :
    (∃ a, operand T.read null value = some a ∧ T.val a = L) ↔
      meaning T.lo T.hi (T.val null) (operandInteger value) = some L := by
  rcases value with _ | v
  · simp [operand, operandInteger]
  · cases v with
    | integer n =>
      simp only [operand, operandInteger, meaning_coe, T.read_iff, Option.ite_none_right_eq_some,
        Option.some.injEq]
      constructor
      · rintro ⟨a, same, rfl⟩
        exact ⟨same ▸ T.range a, same.symm⟩
      · rintro ⟨⟨lower, upper⟩, rfl⟩
        obtain ⟨a, same⟩ := T.exists_val n.toInt lower upper
        exact ⟨a, same, same⟩
    | _ => cases integer

/-- What the compiled lower bound lets through. -/
theorem lower_iff (null x : α) {value : Option IsarValue} (inclusive : Bool)
    (integer : IsInteger value) :
    (∃ a, bound T.read T.checkedAdd null value inclusive = some a ∧ T.val a ≤ T.val x) ↔
      ∃ L, meaning T.lo T.hi (T.val null) (operandInteger value) = some L ∧
        (if inclusive then L ≤ T.val x else L < T.val x) := by
  simp only [bound, Option.bind_eq_some_iff, ← T.operand_iff integer]
  cases inclusive with
  | true =>
    simp only [if_true, Option.some.injEq]
    constructor
    · rintro ⟨_, ⟨a, read, rfl⟩, le⟩
      exact ⟨_, ⟨a, read, rfl⟩, le⟩
    · rintro ⟨_, ⟨a, read, rfl⟩, le⟩
      exact ⟨a, ⟨a, read, rfl⟩, le⟩
  | false =>
    simp only [Bool.false_eq_true, if_false, T.checkedAdd_iff]
    constructor
    · rintro ⟨b, ⟨a, read, next⟩, le⟩
      exact ⟨_, ⟨a, read, rfl⟩, by omega⟩
    · rintro ⟨_, ⟨a, read, rfl⟩, lt⟩
      obtain ⟨b, next⟩ := T.exists_val (T.val a + 1) (by have := T.range a; omega)
        (by have := T.range x; omega)
      exact ⟨b, ⟨a, read, next⟩, by omega⟩

/-- What the compiled upper bound lets through. -/
theorem upper_iff (null x : α) {value : Option IsarValue} (inclusive : Bool)
    (integer : IsInteger value) :
    (∃ a, bound T.read T.checkedSub null value inclusive = some a ∧ T.val x ≤ T.val a) ↔
      ∃ U, meaning T.lo T.hi (T.val null) (operandInteger value) = some U ∧
        (if inclusive then T.val x ≤ U else T.val x < U) := by
  simp only [bound, Option.bind_eq_some_iff, ← T.operand_iff integer]
  cases inclusive with
  | true =>
    simp only [if_true, Option.some.injEq]
    constructor
    · rintro ⟨_, ⟨a, read, rfl⟩, le⟩
      exact ⟨_, ⟨a, read, rfl⟩, le⟩
    · rintro ⟨_, ⟨a, read, rfl⟩, le⟩
      exact ⟨a, ⟨a, read, rfl⟩, le⟩
  | false =>
    simp only [Bool.false_eq_true, if_false, T.checkedSub_iff]
    constructor
    · rintro ⟨b, ⟨a, read, next⟩, le⟩
      exact ⟨_, ⟨a, read, rfl⟩, by omega⟩
    · rintro ⟨_, ⟨a, read, rfl⟩, lt⟩
      obtain ⟨b, next⟩ := T.exists_val (T.val a - 1) (by have := T.range x; omega)
        (by have := T.range a; omega)
      exact ⟨b, ⟨a, read, next⟩, by omega⟩

/-- The values between the compiled bounds are those that `Between` describes. -/
theorem bounds_iff (nullLower nullUpper x : α) {lower upper : Option IsarValue}
    (includeLower includeUpper : Bool) (hl : IsInteger lower) (hu : IsInteger upper) :
    (∃ L U, Native.bounds T.read T.checkedAdd T.checkedSub nullLower nullUpper lower includeLower
        upper includeUpper = some (L, U) ∧ T.val L ≤ T.val x ∧ T.val x ≤ T.val U) ↔
      Between T.lo T.hi (T.val nullLower) (T.val nullUpper) (operandInteger lower) includeLower
        (operandInteger upper) includeUpper (T.val x) := by
  have lower_side := T.lower_iff nullLower x includeLower hl
  have upper_side := T.upper_iff nullUpper x includeUpper hu
  simp only [bounds_eq_some]
  constructor
  · rintro ⟨L, U, ⟨hL, hU⟩, le, le'⟩
    obtain ⟨L', mL, sideL⟩ := lower_side.mp ⟨L, hL, le⟩
    obtain ⟨U', mU, sideU⟩ := upper_side.mp ⟨U, hU, le'⟩
    exact ⟨L', U', mL, mU, sideL, sideU⟩
  · rintro ⟨L', U', mL, mU, sideL, sideU⟩
    obtain ⟨L, hL, le⟩ := lower_side.mpr ⟨L', mL, sideL⟩
    obtain ⟨U, hU, le'⟩ := upper_side.mpr ⟨U', mU, sideU⟩
    exact ⟨L, U, ⟨hL, hU⟩, le, le'⟩

/-- What the bounds of a comparison let through. -/
theorem comparison_iff (nullLower nullUpper x : α) {t : ConditionType}
    {max lower upper : Option IsarValue} (comparison : t.isComparison = true)
    (hmax : IsInteger max) (greatest : operandInteger max = T.hi) (hl : IsInteger lower)
    (hu : IsInteger upper) :
    (∃ L U, (let (l, includeLower, u, includeUpper) := comparisonBounds t max lower upper
        Native.bounds T.read T.checkedAdd T.checkedSub nullLower nullUpper l includeLower u
          includeUpper) = some (L, U) ∧ T.val L ≤ T.val x ∧ T.val x ≤ T.val U) ↔
      Compiled T.lo T.hi (T.val nullLower) (T.val nullUpper) t (operandInteger lower)
        (operandInteger upper) (T.val x) := by
  have hnone : IsInteger none := trivial
  cases t with
  | equal => exact T.bounds_iff nullLower nullUpper x true true hl hl
  | greater =>
    rw [Compiled, ← greatest]
    exact T.bounds_iff nullLower nullUpper x false true hl hmax
  | greaterOrEqual =>
    rw [Compiled, ← greatest]
    exact T.bounds_iff nullLower nullUpper x true true hl hmax
  | less => exact T.bounds_iff nullLower nullUpper x true false hnone hl
  | lessOrEqual => exact T.bounds_iff nullLower nullUpper x true true hnone hl
  | between => exact T.bounds_iff nullLower nullUpper x true true hl hu
  | _ => cases comparison

end IntegerType

/-! ## Filters on a stored object -/

variable {toLowercase : List Char → List Char}

/-- Compiled bounds match what lies between them; without bounds nothing matches. -/
theorem evaluate_bounds {α : Type} (T : IntegerType α) {result : Option (α × α)}
    {make : α → α → NativeFilter} {id : Int64} {object : IsarDeserializer} {x : α}
    (evaluates : ∀ L U, (make L U).evaluate toLowercase id object =
      some (decide (T.val L ≤ T.val x ∧ T.val x ≤ T.val U))) :
    ∃ b, ((result.map fun b => make b.1 b.2).getD (.stat false)).evaluate toLowercase id object =
        some b ∧
      (b = true ↔ ∃ L U, result = some (L, U) ∧ T.val L ≤ T.val x ∧ T.val x ≤ T.val U) := by
  cases result with
  | none => exact ⟨false, by simp [NativeFilter.evaluate], by simp⟩
  | some bounds =>
    obtain ⟨L, U⟩ := bounds
    refine ⟨_, evaluates L U, ?_⟩
    simp

/-- A stored bool as an integer; false is 0 and true is 1. -/
def boolInteger : Option Bool → WithBot Int
  | some b => ((if b then 1 else 0 : Int) : WithBot Int)
  | none => ⊥

/-- The integer that an object stores in a bool or integer property, or has as its id. -/
def storedInteger (property : Option NativeProperty) (id : Int64) (object : IsarDeserializer) :
    Option (WithBot Int) :=
  match property with
  | none => some id.toInt
  | some p =>
    match p.dataType with
    | .bool => (object.readBool p.offset).map boolInteger
    | .byte => (object.readByte p.offset).map fun v => ((v.toNat : Int) : WithBot Int)
    | .int => (object.readInt p.offset).map fun v => nullAt (-2 ^ 31) v.toInt
    | .long => (object.readLong p.offset).map fun v => nullAt (-2 ^ 63) v.toInt
    | _ => none

/-- A null operand, or one of the property's type: a bool for a bool property, any integer for the
others and for the id. -/
def Fits (property : Option NativeProperty) : Option IsarValue → Prop
  | none => True
  | some (.bool _) => property.map NativeProperty.dataType = some .bool
  | some (.integer _) => property.map NativeProperty.dataType ≠ some .bool
  | _ => False

/-- The inputs on which a comparison filter is exact: all for a bool property. -/
def ExactInput (property : Option NativeProperty) (t : ConditionType) (x l u : WithBot Int) :
    Prop :=
  match property.map NativeProperty.dataType with
  | some .bool => True
  | some .byte => PlainExact 0 255 t x l u
  | some .int => NullableExact (-2 ^ 31) (2 ^ 31 - 1) t x l u
  | some _ => NullableExact (-2 ^ 63) (2 ^ 63 - 1) t x l u
  | none => IdExact (-2 ^ 63) (2 ^ 63 - 1) t x l u

section
variable {property : Option NativeProperty} {id : Int64} {object : IsarDeserializer}
  {t : ConditionType} {lower upper : Option IsarValue} {caseSensitive : Bool}

/-- What a compiled comparison matches on an object with the value `x` of an integer type. -/
theorem evaluate_comparison {α : Type} (T : IntegerType α) (property : Option NativeProperty)
    (nullLower nullUpper : α) {make : α → α → NativeFilter} {x : α}
    (compiled : ∀ l includeLower u includeUpper,
      nativeBetweenFilter toLowercase property l includeLower u includeUpper caseSensitive =
        (Native.bounds T.read T.checkedAdd T.checkedSub nullLower nullUpper l includeLower u
          includeUpper).map fun b => make b.1 b.2)
    (hmax : IsInteger (getMax property)) (greatest : operandInteger (getMax property) = T.hi)
    (evaluates : ∀ L U, (make L U).evaluate toLowercase id object =
      some (decide (T.val L ≤ T.val x ∧ T.val x ≤ T.val U)))
    (comparison : t.isComparison = true) (hl : IsInteger lower) (hu : IsInteger upper) :
    ∃ b, (comparisonFilter toLowercase property t lower upper caseSensitive).evaluate toLowercase
        id object = some b ∧
      (b = true ↔ Compiled T.lo T.hi (T.val nullLower) (T.val nullUpper) t (operandInteger lower)
        (operandInteger upper) (T.val x)) := by
  have means := T.comparison_iff nullLower nullUpper x comparison hmax greatest hl hu
  rcases h : comparisonBounds t (getMax property) lower upper with
    ⟨l, includeLower, u, includeUpper⟩
  simp only [h] at means
  obtain ⟨b, eq, iff⟩ := evaluate_bounds T evaluates
  refine ⟨b, ?_, iff.trans means⟩
  simp only [comparisonFilter, h, compiled]
  exact eq

theorem Fits.isInteger {value : Option IsarValue} (fits : Fits property value)
    (h : property.map NativeProperty.dataType ≠ some .bool) : IsInteger value := by
  rcases value with _ | v
  · trivial
  · cases v with
    | bool b => exact absurd fits h
    | integer n => trivial
    | _ => exact fits

theorem Fits.exists_bool {value : Option IsarValue} (fits : Fits property value)
    (h : property.map NativeProperty.dataType = some .bool) :
    ∃ b : Option Bool, value = b.map .bool ∧ operandInteger value = boolInteger b := by
  rcases value with _ | v
  · exact ⟨none, rfl, rfl⟩
  · cases v with
    | bool b => exact ⟨some b, rfl, rfl⟩
    | integer n => exact absurd h fits
    | _ => cases fits

theorem exact_id (comparison : t.isComparison = true) (hl : IsInteger lower)
    (hu : IsInteger upper) :
    (comparisonFilter toLowercase none t lower upper caseSensitive).evaluate toLowercase id object =
        some (decide (t.Compares id.toInt (operandInteger lower)
          (operandInteger upper))) ↔
      IdExact (-2 ^ 63) (2 ^ 63 - 1) t id.toInt (operandInteger lower)
        (operandInteger upper) := by
  have evaluates (L U : Int64) : (NativeFilter.idBetween L U).evaluate toLowercase id object =
      some (decide (L.toInt ≤ id.toInt ∧ id.toInt ≤ U.toInt)) := by
    simp [NativeFilter.evaluate, Int64.le_iff_toInt_le]
  rw [exact_iff_of_decides (evaluate_comparison longType none Int64.minValue Int64.minValue
    (fun _ _ _ _ => rfl) trivial rfl evaluates comparison hl hu)]
  exact id_exact_iff (longType.range id).1 (longType.range id).2 comparison _ _

theorem exact_byte {p : NativeProperty} {v : UInt8} (type : p.dataType = .byte)
    (read : object.readByte p.offset = some v) (comparison : t.isComparison = true)
    (hl : IsInteger lower) (hu : IsInteger upper) :
    (comparisonFilter toLowercase (some p) t lower upper caseSensitive).evaluate toLowercase id
        object = some (decide (t.Compares ((v.toNat : Int) : WithBot Int) (operandInteger lower)
          (operandInteger upper))) ↔
      PlainExact 0 255 t (v.toNat : Int) (operandInteger lower) (operandInteger upper) := by
  have max : getMax (some p) = some (.integer 255) := by simp [getMax, type]
  have compiled (l includeLower u includeUpper) :
      nativeBetweenFilter toLowercase (some p) l includeLower u includeUpper caseSensitive =
        (byteBounds l includeLower u includeUpper).map fun b =>
          .create p .byte .byteList (.byte b.1 b.2) := by
    simp [nativeBetweenFilter, type]
  have evaluates (L U : UInt8) :
      (NativeFilter.create p .byte .byteList (.byte L U)).evaluate toLowercase id object =
        some (decide ((L.toNat : Int) ≤ v.toNat ∧ (v.toNat : Int) ≤ U.toNat)) := by
    simp [evaluate_create type, ValueTest.evaluate, read, UInt8.le_iff_toNat_le]
  rw [exact_iff_of_decides (evaluate_comparison byteType (some p) 0 255 compiled
    (max ▸ trivial) (max ▸ rfl) evaluates comparison hl hu)]
  exact plain_exact_iff (byteType.range v).1 (byteType.range v).2 comparison _ _

theorem exact_int {p : NativeProperty} {v : Int32} (type : p.dataType = .int)
    (read : object.readInt p.offset = some v) (comparison : t.isComparison = true)
    (hl : IsInteger lower) (hu : IsInteger upper) :
    (comparisonFilter toLowercase (some p) t lower upper caseSensitive).evaluate toLowercase id
        object = some (decide (t.Compares (nullAt (-2 ^ 31) v.toInt) (operandInteger lower)
          (operandInteger upper))) ↔
      NullableExact (-2 ^ 31) (2 ^ 31 - 1) t (nullAt (-2 ^ 31) v.toInt) (operandInteger lower)
        (operandInteger upper) := by
  have max : getMax (some p) = some (.integer 2147483647) := by simp [getMax, type]
  have compiled (l includeLower u includeUpper) :
      nativeBetweenFilter toLowercase (some p) l includeLower u includeUpper caseSensitive =
        (intBounds l includeLower u includeUpper).map fun b =>
          .create p .int .intList (.int b.1 b.2) := by
    simp [nativeBetweenFilter, type]
  have evaluates (L U : Int32) :
      (NativeFilter.create p .int .intList (.int L U)).evaluate toLowercase id object =
        some (decide (L.toInt ≤ v.toInt ∧ v.toInt ≤ U.toInt)) := by
    simp [evaluate_create type, ValueTest.evaluate, read, Int32.le_iff_toInt_le]
  rw [exact_iff_of_decides (evaluate_comparison intType (some p) Int32.minValue Int32.minValue
    compiled (max ▸ trivial) (max ▸ rfl) evaluates comparison hl hu)]
  exact nullable_exact_iff (intType.range v).1 (intType.range v).2 comparison _ _

theorem exact_long {p : NativeProperty} {v : Int64} (type : p.dataType = .long)
    (read : object.readLong p.offset = some v) (comparison : t.isComparison = true)
    (hl : IsInteger lower) (hu : IsInteger upper) :
    (comparisonFilter toLowercase (some p) t lower upper caseSensitive).evaluate toLowercase id
        object = some (decide (t.Compares (nullAt (-2 ^ 63) v.toInt) (operandInteger lower)
          (operandInteger upper))) ↔
      NullableExact (-2 ^ 63) (2 ^ 63 - 1) t (nullAt (-2 ^ 63) v.toInt) (operandInteger lower)
        (operandInteger upper) := by
  have max : getMax (some p) = some (.integer Int64.maxValue) := by simp [getMax, type]
  have compiled (l includeLower u includeUpper) :
      nativeBetweenFilter toLowercase (some p) l includeLower u includeUpper caseSensitive =
        (longBounds l includeLower u includeUpper).map fun b =>
          .create p .long .longList (.long b.1 b.2) := by
    simp [nativeBetweenFilter, type]
  have evaluates (L U : Int64) :
      (NativeFilter.create p .long .longList (.long L U)).evaluate toLowercase id object =
        some (decide (L.toInt ≤ v.toInt ∧ v.toInt ≤ U.toInt)) := by
    simp [evaluate_create type, ValueTest.evaluate, read, Int64.le_iff_toInt_le]
  rw [exact_iff_of_decides (evaluate_comparison longType (some p) Int64.minValue Int64.minValue
    compiled (max ▸ trivial) (max ▸ rfl) evaluates comparison hl hu)]
  exact nullable_exact_iff (longType.range v).1 (longType.range v).2 comparison _ _

/-- The compiled bounds on bools decide the comparison; bools are few enough to try all. -/
theorem boolBounds_exact (t : ConditionType) (comparison : t.isComparison = true)
    (l u v : Option Bool) :
    (let (l, includeLower, u, includeUpper) :=
        comparisonBounds t (some (.bool true)) (l.map .bool) (u.map .bool);
      match boolBounds l includeLower u includeUpper with
      | some (L, U) => boolLe L v && boolLe v U
      | none => false) =
      decide (t.Compares (boolInteger v) (boolInteger l) (boolInteger u)) := by
  cases t <;> cases comparison <;> rcases l with _ | _ | _ <;> rcases u with _ | _ | _ <;>
    rcases v with _ | _ | _ <;> rfl

/-- A filter on a bool property is always exact. -/
theorem exact_bool {p : NativeProperty} {v : Option Bool} (type : p.dataType = .bool)
    (read : object.readBool p.offset = some v) (comparison : t.isComparison = true)
    (hl : Fits (some p) lower) (hu : Fits (some p) upper) :
    (comparisonFilter toLowercase (some p) t lower upper caseSensitive).evaluate toLowercase id
        object = some (decide (t.Compares (boolInteger v) (operandInteger lower)
          (operandInteger upper))) := by
  have max : getMax (some p) = some (.bool true) := by simp [getMax, type]
  have evaluates (l u : Option Bool) :
      (NativeFilter.create p .bool .boolList (.bool l u)).evaluate toLowercase id object =
        some (boolLe l v && boolLe v u) := by
    simp [evaluate_create type, ValueTest.evaluate, read]
  obtain ⟨l, rfl, hl⟩ := hl.exists_bool (congrArg some type)
  obtain ⟨u, rfl, hu⟩ := hu.exists_bool (congrArg some type)
  have exact := boolBounds_exact t comparison l u v
  rcases h : comparisonBounds t (some (.bool true)) (l.map .bool) (u.map .bool) with
    ⟨lower, includeLower, upper, includeUpper⟩
  simp only [h] at exact
  simp only [comparisonFilter, max, h, nativeBetweenFilter, type, hl, hu, ← exact]
  cases boolBounds lower includeLower upper includeUpper with
  | none => rfl
  | some bounds => exact evaluates bounds.1 bounds.2

/-- The compiled filter decides the comparison exactly on the inputs that `ExactInput` describes. -/
theorem integer_comparison_exact {condition : FilterCondition} {collection : NativeCollection}
    {all : List NativeCollection} {x : WithBot Int}
    (comparison : condition.conditionType.isComparison = true)
    (operands : condition.Operands lower upper)
    (hl : Fits (collection.getProperty condition.propertyIndex) lower)
    (hu : Fits (collection.getProperty condition.propertyIndex) upper)
    (stored : storedInteger (collection.getProperty condition.propertyIndex) id object = some x) :
    ((filterToNative toLowercase collection all (.condition condition)).bind fun filter =>
        filter.evaluate toLowercase id object) =
        some (decide (condition.conditionType.Compares x (operandInteger lower)
          (operandInteger upper))) ↔
      ExactInput (collection.getProperty condition.propertyIndex) condition.conditionType x
        (operandInteger lower) (operandInteger upper) := by
  rw [filterToNative_comparison comparison operands, Option.bind_some]
  cases h : collection.getProperty condition.propertyIndex with
  | none =>
    rw [h] at stored hl hu
    cases stored
    exact exact_id comparison (hl.isInteger nofun) (hu.isInteger nofun)
  | some p =>
    rw [h] at stored hl hu
    cases type : p.dataType <;> simp only [storedInteger, type, Option.map_eq_some_iff, reduceCtorEq]
      at stored <;> obtain ⟨v, read, rfl⟩ := stored
    case bool =>
      simp only [ExactInput, Option.map_some, type, iff_true]
      exact exact_bool type read comparison hl hu
    case byte =>
      simp only [ExactInput, Option.map_some, type]
      exact exact_byte type read comparison (hl.isInteger (by simp [type]))
        (hu.isInteger (by simp [type]))
    case int =>
      simp only [ExactInput, Option.map_some, type]
      exact exact_int type read comparison (hl.isInteger (by simp [type]))
        (hu.isInteger (by simp [type]))
    case long =>
      simp only [ExactInput, Option.map_some, type]
      exact exact_long type read comparison (hl.isInteger (by simp [type]))
        (hu.isInteger (by simp [type]))

end

/-- A collection with a byte property. -/
def byteCollection : NativeCollection :=
  .new 0 "bytes" (some "id") [("value", ⟨.byte, 0, none⟩)] [] (some "bytes")

/-- A condition on that property. -/
def byteCondition (t : ConditionType) (operand : Option IsarValue) : FilterCondition :=
  { propertyIndex := 1, conditionType := t, values := [operand], caseSensitive := true }

theorem bytes_comparison_exact :
    ((filterToNative id byteCollection []
          (.condition (byteCondition .less (some (.integer 7))))).bind
        fun filter => filter.evaluate id 1 { bytes := [5], staticSize := 1 }) =
        some (decide (ConditionType.less.Compares ((5 : Int) : WithBot Int)
          (operandInteger (some (.integer 7))) (operandInteger none))) ↔
      ExactInput (byteCollection.getProperty 1) .less (5 : Int) (operandInteger (some (.integer 7)))
        (operandInteger none) := by
  have operands : (byteCondition .less (some (.integer 7))).Operands (some (.integer 7)) none :=
    ⟨rfl, nofun⟩
  have fits : Fits (byteCollection.getProperty 1) (some (.integer 7)) := by
    simp [Fits, byteCollection, NativeCollection.getProperty, NativeCollection.new]
  exact integer_comparison_exact rfl operands fits trivial rfl

/-- Less than 300 does not match the byte 5. -/
theorem bytes_less_out_of_range :
    ((filterToNative id byteCollection []
          (.condition (byteCondition .less (some (.integer 300))))).bind
        fun filter => filter.evaluate id 1 { bytes := [5], staticSize := 1 }) = some false ∧
      ConditionType.less.Compares ((5 : Int) : WithBot Int)
        (operandInteger (some (.integer 300))) (operandInteger none) := by
  decide

end IsarPlus.Native
