import IsarPlus.Core.StringPatterns
import IsarPlus.Lib.CodedGlob
import IsarPlus.Native.Proofs.StringFilters

/-!
# String pattern filters

What the compiled pattern conditions on a string property match. They look at the UTF-8 bytes of the
folded strings, which makes no difference to literals, but the `?` of a wildcard stands for one byte.
The strings that start with an operand are taken for those up to the operand with `"\u{10ffff}"`
behind it.
-/

namespace IsarPlus.Native
open ByteBuffer Scalar

variable {toLowercase : List Char → List Char} {caseSensitive : Bool}

/-! ## Bytes and characters -/

/-- The bytes of a wildcard pattern are the elements for its characters, coded. -/
theorem map_wildToken_encode (wildcard : List Char) :
    (Utf8.encode wildcard).map wildToken =
      (wildcard.map wildcardToken).flatMap (Glob.Token.coded String.utf8EncodeChar) := by
  induction wildcard with
  | nil => rfl
  | cons c wildcard ih =>
    rw [Utf8.encode_cons, List.map_append, ih, List.map_cons, List.flatMap_cons]
    congr 1
    by_cases star : c = '*'
    · subst star; rfl
    by_cases any : c = '?'
    · subst any; rfl
    have literal : ∀ b ∈ String.utf8EncodeChar c, wildToken b = .lit b := by
      intro b mem
      have notStar : b ≠ asterisk := by
        rintro rfl
        exact star (Utf8.eq_of_mem_encodeChar mem rfl)
      have notAny : b ≠ questionMark := by
        rintro rfl
        exact any (Utf8.eq_of_mem_encodeChar mem rfl)
      rw [wildToken, if_neg notAny, if_neg notStar]
    rw [wildcardToken, if_neg star, if_neg any, Glob.Token.coded]
    exact List.map_congr_left literal

theorem synchronising_utf8 : Glob.Synchronising String.utf8EncodeChar :=
  fun _ _ _ _ h => Utf8.encode_eq_append_encodeChar h

/-- The matcher measures what its wildcards take in by the bytes. -/
theorem fastWildMatch_encode (s wildcard : List Char) :
    fastWildMatch (Utf8.encode s) (Utf8.encode wildcard) =
      some (Glob.fits Char.utf8Size 0 false (wildcard.map wildcardToken) s) := by
  rw [fastWildMatch_eq, map_wildToken_encode, Utf8.encode, Glob.accepts_coded synchronising_utf8]
  simp only [String.length_utf8EncodeChar]

/-- Literal patterns may be looked for in the bytes. -/
theorem accepts_encode {p : List (Glob.Token Char)} (s : List Char) (literal : Glob.Token.any ∉ p) :
    Glob.accepts (p.flatMap (Glob.Token.coded String.utf8EncodeChar)) (Utf8.encode s) =
      Glob.accepts p s :=
  Glob.accepts_coded_of_any_not_mem synchronising_utf8 (fun _ => String.utf8EncodeChar_ne_nil)
    literal

theorem flatMap_coded_lits (operand : List Char) :
    (operand.map Glob.Token.lit).flatMap (Glob.Token.coded String.utf8EncodeChar) =
      (Utf8.encode operand).map .lit := by
  simp [Utf8.encode, List.flatMap_map, List.map_flatMap, Glob.Token.coded]

theorem encode_suffix_iff {operand s : List Char} :
    Utf8.encode operand <:+ Utf8.encode s ↔ operand <:+ s := by
  have same := @accepts_encode (.star :: operand.map .lit) s (by simp)
  rw [List.flatMap_cons, flatMap_coded_lits] at same
  rw [← Glob.accepts_star_lits, ← Glob.accepts_star_lits, ← same]
  rfl

theorem encode_infix_iff {operand s : List Char} :
    Utf8.encode operand <:+: Utf8.encode s ↔ operand <:+: s := by
  have same := @accepts_encode (.star :: (operand.map .lit ++ [.star])) s (by simp)
  rw [List.flatMap_cons, List.flatMap_append, flatMap_coded_lits] at same
  rw [← Glob.accepts_star_lits_star, ← Glob.accepts_star_lits_star, ← same]
  rfl

/-! ## Filters on a stored string -/

/-- The string that a pattern condition looks at. -/
def nativeMatches (t : ConditionType) (s operand : List Char) : Bool :=
  match t with
  | .stringStartsWith => decide (operand ≤ s ∧ s ≤ operand ++ IsarValue.maxString)
  | .stringMatches => Glob.fits Char.utf8Size 0 false (operand.map wildcardToken) s
  | t => t.matchesString s operand

/-- The folded strings on which the native filter is exact: nothing of the string stands behind the
`"\u{10ffff}"` after a start, and the pieces for the wildcards fit by the bytes if and only if they
fit by the characters. -/
def NativePatternExact (t : ConditionType) (s operand : List Char) : Prop :=
  match t with
  | .stringStartsWith => operand ++ IsarValue.maxString <+: s → s = operand ++ IsarValue.maxString
  | .stringMatches => Glob.fits Char.utf8Size 0 false (operand.map wildcardToken) s =
      Glob.fits (fun _ => 1) 0 false (operand.map wildcardToken) s
  | _ => True

theorem maxChar_le (c : Char) : c ≤ Char.ofNat 0x10ffff := by
  have := Utf8.toNat_lt c
  show c.val.toNat ≤ 0x10ffff
  omega

theorem nativeMatches_iff {t : ConditionType} (isPattern : t.isPattern = true)
    (s operand : List Char) :
    nativeMatches t s operand = t.matchesString s operand ↔ NativePatternExact t s operand := by
  cases t with
  | stringStartsWith =>
    have between : operand ≤ s ∧ s ≤ operand ++ IsarValue.maxString ↔ _ :=
      Lexicographic.between_greatest_iff maxChar_le
    rw [nativeMatches, ConditionType.matchesString, NativePatternExact, Bool.eq_iff_iff,
      decide_eq_true_eq, List.isPrefixOf_iff_prefix, between]
    constructor
    · intro same within
      exact (same.mpr ((List.prefix_append _ _).trans within)).2 within
    · intro exact
      exact ⟨And.left, fun within => ⟨within, exact⟩⟩
  | stringEndsWith | stringContains => simp [nativeMatches, NativePatternExact]
  | stringMatches =>
    simp only [nativeMatches, ConditionType.matchesString, NativePatternExact,
      Glob.accepts_eq_fits]
  | _ => cases isPattern

section
variable {id : Int64} {object : IsarDeserializer} {p : NativeProperty} {v : Option (List Char)}
  {condition : FilterCondition} {collection : NativeCollection} {all : List NativeCollection}

theorem stringTest_encode {test : Bytes → Option Bool} :
    stringTest toLowercase test (v.map Utf8.encode) caseSensitive =
      match v with
      | some s => test (Utf8.encode (foldCase toLowercase caseSensitive s))
      | none => some false := by
  cases v with
  | none => rfl
  | some s => cases caseSensitive <;> simp [stringTest, comparedBytes, foldCase]

/-- What the compiled pattern condition returns. -/
theorem evaluate_pattern (laws : Lowercases toLowercase)
    (isPattern : condition.conditionType.isPattern = true)
    (property : collection.getProperty condition.propertyIndex = some p)
    (type : p.dataType = .string)
    (stored : object.readString p.offset = some (v.map Utf8.encode)) :
    ((filterToNative toLowercase collection all (.condition condition)).bind fun filter =>
        filter.evaluate toLowercase id object) =
      some (condition.testPattern (fun s operand => nativeMatches condition.conditionType
        (foldCase toLowercase condition.caseSensitive s)
        (foldCase toLowercase condition.caseSensitive operand)) v) := by
  have read : patternOperand condition = condition.pattern? := by
    unfold patternOperand FilterCondition.pattern?
    rcases condition.values[0]? with _ | _ | operand
    · rfl
    · rfl
    · cases operand <;> rfl
  have bytes (operand : List Char) : stringToBytes toLowercase operand condition.caseSensitive =
      Utf8.encode (foldCase toLowercase condition.caseSensitive operand) := rfl
  rw [filterToNative, Option.bind_some]
  unfold conditionToNative FilterCondition.testPattern
  rw [property, read]
  cases found : condition.pattern? with
  | none =>
    cases t : condition.conditionType with
    | stringStartsWith | stringEndsWith | stringContains | stringMatches =>
      cases v <;> simp [NativeFilter.evaluate]
    | _ => rw [t] at isPattern; cases isPattern
  | some operand =>
    cases t : condition.conditionType with
    | stringStartsWith =>
      have between := @stringBetween_eq toLowercase condition.caseSensitive v (some operand)
        (some (operand ++ IsarValue.maxString))
      simp only [Option.pure_def, Option.bind_eq_bind, Option.bind_some, Option.getD_some,
        NativeFilter.string, evaluate_create type, ValueTest.evaluate, stored]
      rw [between]
      have append : foldCase toLowercase condition.caseSensitive
          (operand ++ IsarValue.maxString) =
            foldCase toLowercase condition.caseSensitive operand ++ IsarValue.maxString :=
        laws.foldCase_append operand (by simp)
      cases v with
      | none => simp
      | some s => simp [nativeMatches, append, Bool.decide_and]
    | stringEndsWith =>
      simp only [Option.pure_def, Option.bind_eq_bind, Option.bind_some, Option.getD_some,
        NativeFilter.stringEndsWith, evaluate_create type, ValueTest.evaluate, stored,
        stringTest_encode, bytes]
      cases v with
      | none => rfl
      | some s =>
        rw [Option.some.injEq, Bool.eq_iff_iff, List.isSuffixOf_iff_suffix, encode_suffix_iff,
          ← List.isSuffixOf_iff_suffix]
        rfl
    | stringContains =>
      simp only [Option.pure_def, Option.bind_eq_bind, Option.bind_some, Option.getD_some,
        NativeFilter.stringContains, evaluate_create type, ValueTest.evaluate, stored,
        stringTest_encode, bytes]
      cases v with
      | none => rfl
      | some s => simp only [nativeMatches, ConditionType.matchesString, encode_infix_iff]
    | stringMatches =>
      simp only [Option.pure_def, Option.bind_eq_bind, Option.bind_some, Option.getD_some,
        NativeFilter.stringMatches, evaluate_create type, ValueTest.evaluate, stored,
        stringTest_encode, bytes]
      cases v with
      | none => rfl
      | some s => simp only [nativeMatches, fastWildMatch_encode]
    | _ => rw [t] at isPattern; cases isPattern

end

end IsarPlus.Native
