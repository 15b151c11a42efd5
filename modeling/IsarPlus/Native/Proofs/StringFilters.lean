import IsarPlus.Lib.Lexicographic
import IsarPlus.Native.Proofs.ComparisonFilters
import Mathlib

/-!
# String comparison filters

What the compiled filters on a string property match, and on which inputs that is the comparison. A
strict bound is made inclusive by moving the last character of the operand to its neighbour, which
is not a neighbouring string: the extensions of the lower of the two are lost or gained. Conditions
without an upper bound are compiled with the bound `"\u{10ffff}"`, which strings can exceed.
-/

namespace IsarPlus.Native
open ByteBuffer Scalar

/-! ## The compared strings -/

/-- What the compiler relies on of `str::to_lowercase`: nothing comes from nothing, and a final
character that has no case stays as it is, behind the lowercased rest. -/
structure Lowercases (toLowercase : List Char → List Char) : Prop where
  nil : toLowercase [] = []
  caseless : ∀ s, ∀ c ∈ ['\u0000', Char.ofNat 0x10ffff],
    toLowercase (s ++ [c]) = toLowercase s ++ [c]

section
variable (toLowercase : List Char → List Char) (caseSensitive : Bool)

/-- A string as it is compared. -/
def foldCase (s : List Char) : List Char := if caseSensitive then s else toLowercase s

/-- A nullable string as it is compared. -/
def folded (v : Option (List Char)) : WithBot (List Char) :=
  (v.map (foldCase toLowercase caseSensitive) : Option (List Char))

@[simp] theorem folded_none : folded toLowercase caseSensitive none = ⊥ := rfl

@[simp] theorem folded_some (s : List Char) :
    folded toLowercase caseSensitive (some s) = (foldCase toLowercase caseSensitive s :) := rfl

end

variable {toLowercase : List Char → List Char} {caseSensitive : Bool}

theorem Lowercases.foldCase_nil (laws : Lowercases toLowercase) :
    foldCase toLowercase caseSensitive [] = [] := by
  unfold foldCase
  split
  · rfl
  · exact laws.nil

theorem Lowercases.foldCase_append (laws : Lowercases toLowercase) (s : List Char) {c : Char}
    (h : c ∈ ['\u0000', Char.ofNat 0x10ffff]) :
    foldCase toLowercase caseSensitive (s ++ [c]) =
      foldCase toLowercase caseSensitive s ++ [c] := by
  unfold foldCase
  split
  · rfl
  · exact laws.caseless s c h

theorem Lowercases.folded_maxString (laws : Lowercases toLowercase) :
    folded toLowercase caseSensitive (some IsarValue.maxString) = (IsarValue.maxString :) := by
  have append : foldCase toLowercase caseSensitive ([] ++ [Char.ofNat 0x10ffff]) = _ :=
    laws.foldCase_append [] (by simp)
  rw [folded_some, IsarValue.maxString]
  simpa [laws.foldCase_nil] using append

/-- `string_between` compares the folded strings, null being the least of them. -/
theorem stringBetween_eq (v L U : Option (List Char)) :
    stringBetween toLowercase (v.map Utf8.encode)
        (L.map (stringToBytes toLowercase · caseSensitive))
        (U.map (stringToBytes toLowercase · caseSensitive)) caseSensitive =
      some (decide (folded toLowercase caseSensitive L ≤ folded toLowercase caseSensitive v ∧
        folded toLowercase caseSensitive v ≤ folded toLowercase caseSensitive U)) := by
  have bytes (s : List Char) : stringToBytes toLowercase s caseSensitive =
      Utf8.encode (foldCase toLowercase caseSensitive s) := rfl
  have compared (s : List Char) : comparedBytes toLowercase (Utf8.encode s) caseSensitive =
      some (Utf8.encode (foldCase toLowercase caseSensitive s)) := by
    cases caseSensitive <;> simp [comparedBytes, foldCase]
  cases v with
  | none => cases L <;> simp [stringBetween]
  | some s =>
    cases L <;> cases U <;>
      simp [stringBetween, compared, bytes, Utf8.encode_le_iff, Bool.decide_and]

/-! ## Neighbouring characters -/

theorem charFromU32_eq_some {n : Nat} {d : Char} : charFromU32 n = some d ↔ d.toNat = n := by
  unfold charFromU32
  split
  · rename_i h
    have value : (Char.ofNatAux n h).toNat = n := rfl
    rw [Option.some.injEq]
    constructor
    · rintro rfl
      exact value
    · intro same
      exact Char.toNat_inj.mp (value.trans same.symm)
  · rename_i h
    simp only [reduceCtorEq, false_iff]
    rintro rfl
    exact h d.valid

theorem covBy_of_succ {c d : Char} (h : d.toNat = c.toNat + 1) : c ⋖ d := by
  have lt_iff (a b : Char) : a < b ↔ a.toNat < b.toNat := Iff.rfl
  refine ⟨(lt_iff c d).mpr (by omega), fun x above below => ?_⟩
  rw [lt_iff] at above below
  omega

theorem nul_le (c : Char) : '\u0000' ≤ c := Nat.zero_le c.toNat

/-! ## Exact inputs -/

section
variable (toLowercase : List Char → List Char) (caseSensitive : Bool)

/-- For `c` and `d` neighbouring characters, `s` is above `p ++ [c]` just when it reaches
`p ++ [d]`. -/
def StepsOver (p : List Char) (c d : Char) (s : List Char) : Prop :=
  if caseSensitive then ¬ (p ++ [c] <+: s ∧ s ≠ p ++ [c])
  else toLowercase (p ++ [c]) < toLowercase s ↔ toLowercase (p ++ [d]) ≤ toLowercase s

/-- The inputs on which the filter for a string property is exact: the stored value `v` and the
operand `l`. -/
def StringExact (t : ConditionType) (v l : Option (List Char)) : Prop :=
  let value := folded toLowercase caseSensitive v
  let operand := folded toLowercase caseSensitive l
  match t with
  | .greaterOrEqual => operand ≤ value → value ≤ (IsarValue.maxString :)
  | .greater => (operand < value → value ≤ (IsarValue.maxString :)) ∧
      (value ≤ (IsarValue.maxString :) → ∀ s p c, v = some s → l = some (p ++ [c]) →
        match charFromU32 (c.toNat + 1) with
        | some d => StepsOver toLowercase caseSensitive p c d s
        | none => ¬ operand < value)
  | .less => ∀ p c, l = some (p ++ [c]) → 0 < c.toNat →
      match charFromU32 (c.toNat - 1) with
      | some d => ∀ s, v = some s → StepsOver toLowercase caseSensitive p d c s
      | none => ¬ value < operand
  | _ => True

end

theorem stepsOver_iff {p s : List Char} {c d : Char} (next : d.toNat = c.toNat + 1) :
    StepsOver toLowercase caseSensitive p c d s ↔
      (foldCase toLowercase caseSensitive (p ++ [c]) < foldCase toLowercase caseSensitive s ↔
        foldCase toLowercase caseSensitive (p ++ [d]) ≤ foldCase toLowercase caseSensitive s) := by
  cases caseSensitive with
  | true =>
    simp only [StepsOver, foldCase, if_true]
    exact (Lexicographic.lt_iff_le_iff (covBy_of_succ next)).symm
  | false => simp [StepsOver, foldCase]

theorem stepsOver_iff' {p s : List Char} {c d : Char} (next : d.toNat = c.toNat + 1) :
    StepsOver toLowercase caseSensitive p c d s ↔
      (foldCase toLowercase caseSensitive s ≤ foldCase toLowercase caseSensitive (p ++ [c]) ↔
        foldCase toLowercase caseSensitive s < foldCase toLowercase caseSensitive (p ++ [d])) := by
  have at_most : foldCase toLowercase caseSensitive s ≤ foldCase toLowercase caseSensitive
      (p ++ [c]) ↔ ¬ _ := not_lt.symm
  have below : foldCase toLowercase caseSensitive s < foldCase toLowercase caseSensitive
      (p ++ [d]) ↔ ¬ _ := not_le.symm
  rw [stepsOver_iff next, at_most, below, not_iff_not]

/-- A strict lower bound is never null. -/
theorem stringAbove_ne_none (l : Option (List Char)) : stringAbove l ≠ some none := by
  unfold stringAbove
  split
  · split <;> simp
  · simp

/-- When the moved lower bound is exact. -/
theorem stringAbove_iff (laws : Lowercases toLowercase) (l v : Option (List Char)) :
    ((∃ L, stringAbove l = some L ∧
        folded toLowercase caseSensitive L ≤ folded toLowercase caseSensitive v) ↔
      folded toLowercase caseSensitive l < folded toLowercase caseSensitive v) ↔
      ∀ s p c, v = some s → l = some (p ++ [c]) →
        match charFromU32 (c.toNat + 1) with
        | some d => StepsOver toLowercase caseSensitive p c d s
        | none => ¬ folded toLowercase caseSensitive l < folded toLowercase caseSensitive v := by
  cases v with
  | none =>
    have unmatched : ¬ ∃ L, stringAbove l = some L ∧ folded toLowercase caseSensitive L ≤ ⊥ := by
      rintro ⟨_ | L, above, le⟩
      · exact stringAbove_ne_none l above
      · simp at le
    simpa using unmatched
  | some s =>
    rcases l with _ | l
    · simp [stringAbove, laws.foldCase_nil, Lexicographic.nil_le]
    rcases List.eq_nil_or_concat l with rfl | ⟨p, c, rfl⟩
    · have nul : foldCase toLowercase caseSensitive ([] ++ ['\u0000']) = _ :=
        laws.foldCase_append [] (by simp)
      have first (t : List Char) : ['\u0000'] ≤ t ↔ [] < t := by
        have least : t < [] ++ ['\u0000'] ↔ t ≤ [] := Lexicographic.lt_append_least_iff nul_le
        rw [← not_lt, ← not_iff_not, not_not, not_lt]
        exact least
      simp only [List.nil_append, laws.foldCase_nil] at nul
      simp [stringAbove, laws.foldCase_nil, nul, first]
    · cases next : charFromU32 (c.toNat + 1) with
      | none => simp [stringAbove, next]
      | some d =>
        have steps : StepsOver toLowercase caseSensitive p c d s ↔ _ :=
          stepsOver_iff (charFromU32_eq_some.mp next)
        simp [stringAbove, next, steps.trans iff_comm]

/-- When the moved upper bound is exact. -/
theorem stringBelow_iff (laws : Lowercases toLowercase) (l v : Option (List Char)) :
    ((∃ U, stringBelow l = some U ∧
        folded toLowercase caseSensitive v ≤ folded toLowercase caseSensitive U) ↔
      folded toLowercase caseSensitive v < folded toLowercase caseSensitive l) ↔
      ∀ p c, l = some (p ++ [c]) → 0 < c.toNat →
        match charFromU32 (c.toNat - 1) with
        | some d => ∀ s, v = some s → StepsOver toLowercase caseSensitive p d c s
        | none => ¬ folded toLowercase caseSensitive v < folded toLowercase caseSensitive l := by
  rcases l with _ | l
  · simp [stringBelow]
  rcases List.eq_nil_or_concat l with rfl | ⟨p, c, rfl⟩
  · cases v <;> simp [stringBelow, laws.foldCase_nil]
  by_cases zero : 0 < c.toNat
  · cases next : charFromU32 (c.toNat - 1) with
    | none => simp [stringBelow, zero, next]
    | some d =>
      have succ : c.toNat = d.toNat + 1 := by
        have := charFromU32_eq_some.mp next
        omega
      cases v with
      | none => simp [stringBelow, zero, next]
      | some s =>
        have steps : StepsOver toLowercase caseSensitive p d c s ↔ _ := stepsOver_iff' succ
        simp [stringBelow, zero, next, steps]
  · have nul : c = '\u0000' := Char.toNat_inj.mp (by simpa using zero)
    subst nul
    have below (s : List Char) : foldCase toLowercase caseSensitive s <
        foldCase toLowercase caseSensitive (p ++ ['\u0000']) ↔
          foldCase toLowercase caseSensitive s ≤ foldCase toLowercase caseSensitive p := by
      rw [laws.foldCase_append p (by simp)]
      exact Lexicographic.lt_append_least_iff nul_le
    cases v <;> simp [stringBelow, below]

/-! ## Filters on a stored string -/

/-- The string that an operand stands for. -/
def operandString : Option IsarValue → Option (List Char)
  | some (.string s) => some s
  | _ => none

/-- A null or string operand. -/
def IsString : Option IsarValue → Prop
  | none | some (.string _) => True
  | _ => False

theorem stringBounds_eq_some {lower upper : Option IsarValue} {includeLower includeUpper : Bool}
    {L U : Option (List Char)} (hl : IsString lower) (hu : IsString upper) :
    stringBounds lower includeLower upper includeUpper = some (L, U) ↔
      (if includeLower then some (operandString lower) else stringAbove (operandString lower)) =
        some L ∧
      (if includeUpper then some (operandString upper) else stringBelow (operandString upper)) =
        some U := by
  have read (value : Option IsarValue) (h : IsString value) :
      operand (fun v => v.string?.map some) none value = some (operandString value) := by
    rcases value with _ | _ | _ | _ | s <;> first | rfl | cases h
  simp [stringBounds, bounds_eq_some, bound, read lower hl, read upper hu]

section
variable {id : Int64} {object : IsarDeserializer} {p : NativeProperty} {v : Option (List Char)}
  {t : ConditionType} {lower upper : Option IsarValue}

/-- Compiled string bounds match what lies between them; without bounds nothing matches. -/
theorem evaluate_stringBounds (type : p.dataType = .string)
    (stored : object.readString p.offset = some (v.map Utf8.encode))
    (result : Option (Option (List Char) × Option (List Char))) :
    ∃ b, ((result.map fun (l, u) => NativeFilter.string toLowercase p l u caseSensitive).getD
        (.stat false)).evaluate toLowercase id object = some b ∧
      (b = true ↔ ∃ L U, result = some (L, U) ∧
        folded toLowercase caseSensitive L ≤ folded toLowercase caseSensitive v ∧
        folded toLowercase caseSensitive v ≤ folded toLowercase caseSensitive U) := by
  cases result with
  | none => exact ⟨false, by simp [NativeFilter.evaluate], by simp⟩
  | some bounds =>
    obtain ⟨L, U⟩ := bounds
    have evaluates :
        (NativeFilter.string toLowercase p L U caseSensitive).evaluate toLowercase id object =
          some (decide (folded toLowercase caseSensitive L ≤ folded toLowercase caseSensitive v ∧
            folded toLowercase caseSensitive v ≤ folded toLowercase caseSensitive U)) := by
      simp only [NativeFilter.string, evaluate_create type, ValueTest.evaluate, stored,
        Option.bind_eq_bind, Option.bind_some]
      exact stringBetween_eq v L U
    exact ⟨_, evaluates, by simp⟩

private theorem and_iff_iff {A B M : Prop} : (A ∧ M ↔ B) ↔ (B → M) ∧ (M → (A ↔ B)) := by
  tauto

/-- The bounds of a comparison match what the comparison does, exactly on the inputs that
`StringExact` describes. -/
theorem comparisonBounds_exact (laws : Lowercases toLowercase)
    (comparison : t.isComparison = true) (hl : IsString lower) (hu : IsString upper) :
    ((∃ L U, (let (l, includeLower, u, includeUpper) :=
          comparisonBounds t (some (.string IsarValue.maxString)) lower upper
        stringBounds l includeLower u includeUpper) = some (L, U) ∧
          folded toLowercase caseSensitive L ≤ folded toLowercase caseSensitive v ∧
          folded toLowercase caseSensitive v ≤ folded toLowercase caseSensitive U) ↔
        t.Compares (folded toLowercase caseSensitive v)
          (folded toLowercase caseSensitive (operandString lower))
          (folded toLowercase caseSensitive (operandString upper))) ↔
      StringExact toLowercase caseSensitive t v (operandString lower) := by
  have hmax : IsString (some (.string IsarValue.maxString)) := trivial
  have hnone : IsString none := trivial
  have max : folded toLowercase caseSensitive
      (operandString (some (.string IsarValue.maxString))) = (IsarValue.maxString :) :=
    laws.folded_maxString
  have least : folded toLowercase caseSensitive (operandString none) = ⊥ := rfl
  have above := @stringAbove_iff toLowercase caseSensitive laws (operandString lower) v
  have below := @stringBelow_iff toLowercase caseSensitive laws (operandString lower) v
  cases t with
  | equal =>
    simp only [comparisonBounds, stringBounds_eq_some hl hl, if_true, Option.some.injEq,
      ConditionType.Compares, StringExact, iff_true]
    constructor
    · rintro ⟨L, U, ⟨rfl, rfl⟩, le, le'⟩
      exact le_antisymm le' le
    · intro same
      exact ⟨_, _, ⟨rfl, rfl⟩, same.ge, same.le⟩
  | greater =>
    simp only [comparisonBounds, stringBounds_eq_some hl hmax, if_true, Bool.false_eq_true,
      if_false, Option.some.injEq, ConditionType.Compares, StringExact, ← above]
    have split : (∃ L U, (stringAbove (operandString lower) = some L ∧
          operandString (some (.string IsarValue.maxString)) = U) ∧
        folded toLowercase caseSensitive L ≤ folded toLowercase caseSensitive v ∧
        folded toLowercase caseSensitive v ≤ folded toLowercase caseSensitive U) ↔
        (∃ L, stringAbove (operandString lower) = some L ∧
          folded toLowercase caseSensitive L ≤ folded toLowercase caseSensitive v) ∧
        folded toLowercase caseSensitive v ≤ (IsarValue.maxString :) := by
      constructor
      · rintro ⟨L, U, ⟨hL, rfl⟩, le, le'⟩
        exact ⟨⟨L, hL, le⟩, max ▸ le'⟩
      · rintro ⟨⟨L, hL, le⟩, le'⟩
        exact ⟨L, _, ⟨hL, rfl⟩, le, max ▸ le'⟩
    rw [split]
    exact and_iff_iff
  | greaterOrEqual =>
    simp only [comparisonBounds, stringBounds_eq_some hl hmax, if_true, Option.some.injEq,
      ConditionType.Compares, StringExact]
    constructor
    · intro same le
      obtain ⟨L, U, ⟨rfl, rfl⟩, -, le'⟩ := same.mpr le
      exact max ▸ le'
    · intro bounded
      constructor
      · rintro ⟨L, U, ⟨rfl, rfl⟩, le, -⟩
        exact le
      · intro le
        exact ⟨_, _, ⟨rfl, rfl⟩, le, max ▸ bounded le⟩
  | less =>
    simp only [comparisonBounds, stringBounds_eq_some hnone hl, if_true, Bool.false_eq_true,
      if_false, Option.some.injEq, ConditionType.Compares, StringExact, ← below]
    have split : (∃ L U, (operandString none = L ∧ stringBelow (operandString lower) = some U) ∧
        folded toLowercase caseSensitive L ≤ folded toLowercase caseSensitive v ∧
        folded toLowercase caseSensitive v ≤ folded toLowercase caseSensitive U) ↔
        ∃ U, stringBelow (operandString lower) = some U ∧
          folded toLowercase caseSensitive v ≤ folded toLowercase caseSensitive U := by
      constructor
      · rintro ⟨L, U, ⟨rfl, hU⟩, -, le⟩
        exact ⟨U, hU, le⟩
      · rintro ⟨U, hU, le⟩
        exact ⟨_, U, ⟨rfl, hU⟩, least ▸ bot_le, le⟩
    rw [split]
  | lessOrEqual =>
    simp only [comparisonBounds, stringBounds_eq_some hnone hl, if_true, Option.some.injEq,
      ConditionType.Compares, StringExact, iff_true]
    constructor
    · rintro ⟨L, U, ⟨rfl, rfl⟩, -, le⟩
      exact le
    · intro le
      exact ⟨_, _, ⟨rfl, rfl⟩, least ▸ bot_le, le⟩
  | between =>
    simp only [comparisonBounds, stringBounds_eq_some hl hu, if_true, Option.some.injEq,
      ConditionType.Compares, StringExact, iff_true]
    constructor
    · rintro ⟨L, U, ⟨rfl, rfl⟩, bounds⟩
      exact bounds
    · intro bounds
      exact ⟨_, _, ⟨rfl, rfl⟩, bounds⟩
  | _ => cases comparison

/-- The compiled filter decides the comparison of the folded strings exactly on the inputs that
`StringExact` describes. -/
theorem string_comparison_exact (laws : Lowercases toLowercase) {condition : FilterCondition}
    {collection : NativeCollection} {all : List NativeCollection}
    (comparison : condition.conditionType.isComparison = true)
    (operands : condition.Operands lower upper) (hl : IsString lower) (hu : IsString upper)
    (property : collection.getProperty condition.propertyIndex = some p)
    (type : p.dataType = .string)
    (stored : object.readString p.offset = some (v.map Utf8.encode)) :
    ((filterToNative toLowercase collection all (.condition condition)).bind fun filter =>
        filter.evaluate toLowercase id object) =
        some (decide (condition.conditionType.Compares
          (folded toLowercase condition.caseSensitive v)
          (folded toLowercase condition.caseSensitive (operandString lower))
          (folded toLowercase condition.caseSensitive (operandString upper)))) ↔
      StringExact toLowercase condition.caseSensitive condition.conditionType v
        (operandString lower) := by
  rw [filterToNative_comparison comparison operands, Option.bind_some, property,
    ← comparisonBounds_exact laws comparison hl hu]
  have max : getMax (some p) = some (.string IsarValue.maxString) := by simp [getMax, type]
  rcases h : comparisonBounds condition.conditionType (some (.string IsarValue.maxString)) lower
    upper with ⟨l, includeLower, u, includeUpper⟩
  simp only [comparisonFilter, max, h, nativeBetweenFilter, type]
  exact exact_iff_of_decides (evaluate_stringBounds type stored _)

end

/-- A collection with a string property. -/
def stringCollection : NativeCollection :=
  .new 0 "strings" (some "id") [("value", ⟨.string, 0, none⟩)] [] (some "strings")

/-- A condition on that property. -/
def stringCondition (t : ConditionType) (operand : List Char) : FilterCondition :=
  { propertyIndex := 1, conditionType := t, values := [some (.string operand)],
    caseSensitive := true }

/-- An object whose string is `s`. -/
def stringObject (s : List Char) : IsarDeserializer :=
  { bytes := leBytes 3 3 ++ leBytes 3 (Utf8.encode s).length ++ Utf8.encode s, staticSize := 3 }

theorem strings_comparison_exact :
    ((filterToNative (List.map Char.toLower) stringCollection []
          (.condition (stringCondition .greater ['a']))).bind fun filter =>
        filter.evaluate (List.map Char.toLower) 1 (stringObject ['b'])) =
        some (decide (ConditionType.greater.Compares
          (folded (List.map Char.toLower) true (some ['b']))
          (folded (List.map Char.toLower) true (some ['a'])) ⊥)) ↔
      StringExact (List.map Char.toLower) true .greater (some ['b']) (some ['a']) := by
  have laws : Lowercases (List.map Char.toLower) := by
    refine ⟨rfl, fun s c h => ?_⟩
    simp only [List.mem_cons, List.not_mem_nil, or_false] at h
    rcases h with rfl | rfl <;> simp
  have operands : (stringCondition .greater ['a']).Operands (some (.string ['a'])) none :=
    ⟨rfl, nofun⟩
  have stored : (stringObject ['b']).readString 0 = some ((some ['b']).map Utf8.encode) := by
    decide
  exact string_comparison_exact laws rfl operands trivial trivial rfl rfl stored

/-- Greater than `"a"` does not match `"ab"`. -/
theorem strings_greater_misses_extension :
    ((filterToNative (List.map Char.toLower) stringCollection []
          (.condition (stringCondition .greater ['a']))).bind fun filter =>
        filter.evaluate (List.map Char.toLower) 1 (stringObject ['a', 'b'])) = some false ∧
      ConditionType.greater.Compares (folded (List.map Char.toLower) true (some ['a', 'b']))
        (folded (List.map Char.toLower) true (some ['a'])) ⊥ := by
  decide

end IsarPlus.Native
