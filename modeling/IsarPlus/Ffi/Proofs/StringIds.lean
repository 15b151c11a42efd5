import IsarPlus.Ffi.FastHash
import Mathlib

/-!
# String ids on the two builds

The hashes of the core and of the Dart VM are the FNV-1a hash of the bytes of the code units. On the
web it is that of the code units, folded to 52 bits.
-/

namespace IsarPlus.Ffi
open Fnv

/-! ## The core and the Dart VM -/

/-- The two bytes of a code unit, the higher one first. -/
def unitBytes (u : UInt16) : List UInt64 := [(u >>> 8).toUInt64, (u &&& 0xFF).toUInt64]

theorem dartFastHash_eq (value : List Char) :
    dartFastHash value = (fnv1a ((Utf16.encode value).flatMap unitBytes)).toInt64 := by
  rw [dartFastHash, fnv1a, List.foldl_flatMap]
  rfl

/-- Shifting a code unit does not meet the sign. -/
theorem toInt64_shiftRight (u : UInt16) :
    u.toUInt64.toInt64 >>> 8 = (u >>> 8).toUInt64.toInt64 := by
  apply Int64.toBitVec_inj.mp
  have positive : (u.toUInt64.toInt64).toBitVec.msb = false := by
    simp [BitVec.msb_setWidth]
  have eight : (8 : Int64).toBitVec.smod 64 = (8 : BitVec 64) := by decide
  rw [Int64.toBitVec_shiftRight, eight, BitVec.sshiftRight',
    BitVec.sshiftRight_eq_of_msb_false positive]
  apply BitVec.eq_of_toNat_eq
  simp

theorem nativeFastHash_eq (string : List UInt16) :
    nativeFastHash string = (fnv1a (string.flatMap unitBytes)).toInt64 := by
  rw [nativeFastHash, fnv1a, List.foldl_flatMap]
  apply List.foldl_hom UInt64.toInt64
  intro hash u
  simp only [unitBytes, List.foldl_cons, List.foldl_nil, absorb, UInt64.toInt64_mul,
    UInt64.toInt64_xor, ← toInt64_shiftRight]
  rfl

/-! ## The web -/

/-- Folding a 64-bit number to 52 bits. -/
def fold52 (n : Nat) : Nat := n % 2 ^ 52 ^^^ n / 2 ^ 52

namespace Accumulators

/-- Every accumulator holds 16 bits. -/
structure Limbs (a : Accumulators) : Prop where
  v0 : a.v0 < 2 ^ 16
  v1 : a.v1 < 2 ^ 16
  v2 : a.v2 < 2 ^ 16
  v3 : a.v3 < 2 ^ 16

/-- The number that the accumulators hold. -/
def value (a : Accumulators) : Nat := ofLimbs a.v0 a.v1 a.v2 a.v3

theorem jsXor_eq {a b : Nat} (ha : a < 2 ^ 32) (hb : b < 2 ^ 32) : jsXor a b = a ^^^ b := by
  rw [jsXor, Nat.mod_eq_of_lt ha, Nat.mod_eq_of_lt hb]

theorem jsAnd_eq {a : Nat} (ha : a < 2 ^ 32) : jsAnd a 65535 = a % 65536 := by
  rw [jsAnd, Nat.mod_eq_of_lt ha]
  exact Nat.and_two_pow_sub_one_eq_mod a 16

theorem jsShiftRight_eq {a : Nat} (ha : a < 2 ^ 32) (n : Nat) : jsShiftRight a n = a / 2 ^ n := by
  rw [jsShiftRight, Nat.mod_eq_of_lt ha, Nat.shiftRight_eq_div_pow]

theorem jsShiftLeft_eq {a : Nat} (ha : a < 2 ^ 16) : jsShiftLeft a 8 = a * 256 := by
  rw [jsShiftLeft, Nat.shiftLeft_eq, Nat.mod_eq_of_lt (by omega), Nat.mod_eq_of_lt (by omega)]

/-- One turn of the loop without the 32-bit operators, which never lose a bit. -/
theorem next_eq {a : Accumulators} (limbs : a.Limbs) (u : UInt16) :
    a.next u =
      let v0 := a.v0 ^^^ u.toNat
      { v0 := v0 * 435 % 65536
        v1 := (a.v1 * 435 + v0 * 435 / 65536) % 65536
        v2 := (a.v2 * 435 + v0 * 256 + (a.v1 * 435 + v0 * 435 / 65536) / 65536) % 65536
        v3 := (a.v3 * 435 + a.v1 * 256 + (a.v2 * 435 + v0 * 256 +
          (a.v1 * 435 + v0 * 435 / 65536) / 65536) / 65536) % 65536 } := by
  obtain ⟨h0, h1, h2, h3⟩ := limbs
  have symbol : u.toNat < 2 ^ 16 := u.toNat_lt
  have low : a.v0 ^^^ u.toNat < 2 ^ 16 := Nat.xor_lt_two_pow h0 symbol
  unfold next
  rw [jsXor_eq (by omega) (by omega)]
  generalize a.v0 ^^^ u.toNat = v0 at low
  simp only [jsShiftLeft_eq low, jsShiftLeft_eq h1,
    jsShiftRight_eq (show v0 * 435 < 2 ^ 32 by omega) 16, jsAnd_eq (show v0 * 435 < 2 ^ 32 by omega),
    Nat.reducePow]
  rw [jsShiftRight_eq (show a.v1 * 435 + v0 * 435 / 65536 < 2 ^ 32 by omega),
    jsAnd_eq (show a.v1 * 435 + v0 * 435 / 65536 < 2 ^ 32 by omega)]
  simp only [Nat.reducePow]
  rw [jsShiftRight_eq (by omega), jsAnd_eq (by omega), jsAnd_eq (by omega)]
  simp only [Nat.reducePow]

theorem limbs_next {a : Accumulators} (limbs : a.Limbs) (u : UInt16) : (a.next u).Limbs := by
  rw [next_eq limbs]
  constructor <;> exact Nat.mod_lt _ (by decide)

/-- One turn of the loop absorbs the code unit. -/
theorem value_next {a : Accumulators} (limbs : a.Limbs) (u : UInt16) :
    (a.next u).value = (a.value ^^^ u.toNat) * 0x100000001b3 % 2 ^ 64 := by
  have split : a.value = a.v0 + 2 ^ 16 * (a.v1 + 2 ^ 16 * a.v2 + 2 ^ 32 * a.v3) := by
    unfold value ofLimbs
    omega
  have mixed : a.value ^^^ u.toNat = ofLimbs (a.v0 ^^^ u.toNat) a.v1 a.v2 a.v3 := by
    rw [split, xor_low _ _ u.toNat_lt limbs.v0, ofLimbs]
    omega
  rw [next_eq limbs, mixed, ← ofLimbs_mul_prime]
  rfl

theorem toNat_absorb (hash : UInt64) (u : UInt16) :
    (absorb hash u.toUInt64).toNat = (hash.toNat ^^^ u.toNat) * 0x100000001b3 % 2 ^ 64 := by
  rw [absorb, UInt64.toNat_mul, UInt64.toNat_xor, UInt16.toNat_toUInt64]
  rfl

/-- The loop computes the hash of the code units. -/
theorem foldl_next (string : List UInt16) {a : Accumulators} {hash : UInt64} (limbs : a.Limbs)
    (same : a.value = hash.toNat) :
    (string.foldl next a).Limbs ∧ (string.foldl next a).value =
      ((string.map UInt16.toUInt64).foldl absorb hash).toNat := by
  induction string generalizing a hash with
  | nil => exact ⟨limbs, same⟩
  | cons u string ih =>
    apply ih (limbs_next limbs u)
    rw [value_next limbs, toNat_absorb, same]

/-- What is returned is the number folded to 52 bits. -/
theorem result_eq {a : Accumulators} (limbs : a.Limbs) : a.result = fold52 a.value := by
  obtain ⟨h0, h1, h2, h3⟩ := limbs
  have top : jsAnd a.v3 15 = a.v3 % 16 := by
    rw [jsAnd, Nat.mod_eq_of_lt (show a.v3 < 2 ^ 32 by omega)]
    exact Nat.and_two_pow_sub_one_eq_mod a.v3 4
  have high : a.value / 2 ^ 52 = a.v3 / 16 := by
    unfold value ofLimbs
    omega
  have low : a.value % 2 ^ 52 =
      a.v0 + 2 ^ 16 * (a.v1 + 2 ^ 16 * a.v2 + 2 ^ 32 * (a.v3 % 16)) := by
    unfold value ofLimbs
    omega
  rw [fold52, high, low, xor_low _ _ (by omega) h0, result, top, jsShiftRight_eq (by omega),
    jsXor_eq (by omega) (by omega)]
  simp only [Nat.reducePow]
  omega

end Accumulators

theorem webFastHash_eq (str : List UInt16) :
    webFastHash str = fold52 (fnv1a (str.map UInt16.toUInt64)).toNat := by
  have start : Accumulators.Limbs ⟨0x2325, 0x8422, 0x9ce4, 0xcbf2⟩ := by
    constructor <;> decide
  obtain ⟨limbs, value⟩ := @Accumulators.foldl_next str _ offset start rfl
  rw [webFastHash, Accumulators.result_eq limbs, value]
  rfl

/-- On the web every id that Dart passes has 52 bits. -/
theorem webFastHash_lt (str : List UInt16) : webFastHash str < 2 ^ 52 := by
  rw [webFastHash_eq, fold52]
  have bound := (fnv1a (str.map UInt16.toUInt64)).toNat_lt
  exact Nat.xor_lt_two_pow (Nat.mod_lt _ (by decide)) (by omega)

/-! ## Ids -/

/-- An imported object whose id does not have 52 bits is not found under any string on the web. -/
theorem passedId_web_ne {value : List Char} (wide : ¬ (0 ≤ (importedId value).toInt ∧
    (importedId value).toInt < 2 ^ 52)) (str : List UInt16) :
    passedId .web str ≠ importedId value := by
  intro same
  have bound := webFastHash_lt str
  have exact : (passedId .web str).toInt = webFastHash str :=
    Int64.toInt_ofNat_of_lt (by omega)
  rw [same] at exact
  omega

/-- A string has one id on the web just when the hash of its bytes is the folded hash of its code
units. -/
theorem importedId_eq_web {id : List UInt16} (wellFormed : Utf16.WellFormed id) :
    importedId (Utf16.decode id) = passedId .web id ↔
      (fnv1a (id.flatMap unitBytes)).toNat = fold52 (fnv1a (id.map UInt16.toUInt64)).toNat := by
  have bound := webFastHash_lt id
  have passed : passedId .web id = (UInt64.ofNat (webFastHash id)).toInt64 := rfl
  have exact : (UInt64.ofNat (webFastHash id)).toNat = webFastHash id := by
    rw [UInt64.toNat_ofNat', Nat.mod_eq_of_lt (by omega)]
  have same (a b : UInt64) : a.toInt64 = b.toInt64 ↔ a.toNat = b.toNat := by
    rw [UInt64.toNat_inj]
    exact ⟨congrArg Int64.toUInt64, congrArg UInt64.toInt64⟩
  rw [importedId, dartFastHash_eq, Utf16.encode_decode wellFormed, passed, same, exact,
    webFastHash_eq]

/-- In a build every string has one id on all paths exactly if the build is the native one. On the web
it depends on the hashes of the string, and an imported object whose id does not have 52 bits is found
under no string. -/
theorem stringIds_exact (build : Build) :
    ((∀ id, Utf16.WellFormed id → importedId (Utf16.decode id) = passedId build id) ↔
      build = .native) ∧
    (∀ id, Utf16.WellFormed id → (importedId (Utf16.decode id) = passedId .web id ↔
      (fnv1a (id.flatMap unitBytes)).toNat = fold52 (fnv1a (id.map UInt16.toUInt64)).toNat)) ∧
    ∀ value, ¬ (0 ≤ (importedId value).toInt ∧ (importedId value).toInt < 2 ^ 52) →
      ∀ str, passedId .web str ≠ importedId value := by
  refine ⟨?_, fun id wellFormed => importedId_eq_web wellFormed, fun value => passedId_web_ne⟩
  cases build with
  | native =>
    refine iff_of_true ?_ rfl
    intro id wellFormed
    rw [importedId, dartFastHash_eq, Utf16.encode_decode wellFormed, passedId, nativeFastHash_eq]
  | web =>
    refine iff_of_false ?_ (by decide)
    intro all
    have id : Utf16.WellFormed [97] := by
      constructor <;> decide
    exact absurd (all [97] id) (by decide)

/-- The string `a` has two ids on the web. -/
theorem web_id_differs : ¬ ∀ build id, Utf16.WellFormed id →
    importedId (Utf16.decode id) = passedId build id := by
  intro all
  have id : Utf16.WellFormed [97] := by
    constructor <;> decide
  exact absurd (all .web [97] id) (by decide)

end IsarPlus.Ffi
