import Mathlib.Data.List.Basic
import Mathlib.Data.Nat.Bitwise

/-!
# FNV-1a

The 64-bit FNV-1a hash of a sequence of symbols, and the hash in four limbs of 16 bits.
-/

namespace Fnv

def offset : UInt64 := 0xcbf29ce484222325

def prime : UInt64 := 0x100000001b3

/-- The hash after one more symbol. -/
def absorb (hash symbol : UInt64) : UInt64 := (hash ^^^ symbol) * prime

def fnv1a (symbols : List UInt64) : UInt64 := symbols.foldl absorb offset

/-- A number of four digits of 16 bits. -/
def ofLimbs (v0 v1 v2 v3 : Nat) : Nat :=
  v0 + 2 ^ 16 * v1 + 2 ^ 32 * v2 + 2 ^ 48 * v3

/-- A symbol of 16 bits only meets the lowest digit. -/
theorem xor_low (v k : Nat) {c : Nat} (symbol : c < 2 ^ 16) (low : v < 2 ^ 16) :
    (v + 2 ^ 16 * k) ^^^ c = (v ^^^ c) + 2 ^ 16 * k := by
  have high : ((v + 2 ^ 16 * k) ^^^ c) / 2 ^ 16 = k := by
    rw [Nat.xor_div_two_pow, Nat.div_eq_of_lt symbol, Nat.xor_zero]
    omega
  have rest : ((v + 2 ^ 16 * k) ^^^ c) % 2 ^ 16 = v ^^^ c := by
    rw [Nat.xor_mod_two_pow, Nat.mod_eq_of_lt symbol]
    congr 1
    omega
  have split := Nat.div_add_mod ((v + 2 ^ 16 * k) ^^^ c) (2 ^ 16)
  rw [high, rest] at split
  omega

/-- One multiplication by the prime, digit by digit with the carries. -/
theorem ofLimbs_mul_prime (v0 v1 v2 v3 : Nat) :
    ofLimbs (v0 * 435 % 65536)
        ((v1 * 435 + v0 * 435 / 65536) % 65536)
        ((v2 * 435 + v0 * 256 + (v1 * 435 + v0 * 435 / 65536) / 65536) % 65536)
        ((v3 * 435 + v1 * 256 + (v2 * 435 + v0 * 256 + (v1 * 435 + v0 * 435 / 65536) / 65536) /
          65536) % 65536) =
      ofLimbs v0 v1 v2 v3 * 0x100000001b3 % 2 ^ 64 := by
  unfold ofLimbs
  omega

end Fnv
