import Mathlib.Data.Char
import Mathlib.Data.List.Basic

/-!
# UTF-16

The UTF-16 code units of a list of Unicode scalar values. The sequences without unpaired surrogates
are those of such lists.
-/

namespace Utf16

def encodeChar (c : Char) : List UInt16 :=
  if c.toNat < 0x10000 then [UInt16.ofNat c.toNat]
  else [UInt16.ofNat (0xd800 + (c.toNat - 0x10000) / 0x400),
    UInt16.ofNat (0xdc00 + (c.toNat - 0x10000) % 0x400)]

/-- The UTF-16 code units of `s`. -/
def encode (s : List Char) : List UInt16 := s.flatMap encodeChar

def IsHigh (u : UInt16) : Prop := 0xd800 ≤ u.toNat ∧ u.toNat < 0xdc00

def IsLow (u : UInt16) : Prop := 0xdc00 ≤ u.toNat ∧ u.toNat < 0xe000

instance (u : UInt16) : Decidable (IsHigh u) := inferInstanceAs (Decidable (_ ∧ _))

instance (u : UInt16) : Decidable (IsLow u) := inferInstanceAs (Decidable (_ ∧ _))

/-- No surrogate is unpaired. -/
def WellFormed : List UInt16 → Prop
  | [] => True
  | [u] => ¬ IsHigh u ∧ ¬ IsLow u
  | u :: v :: rest =>
    if IsHigh u then IsLow v ∧ WellFormed rest else ¬ IsLow u ∧ WellFormed (v :: rest)

/-- The scalar values of a sequence without unpaired surrogates. -/
def decode : List UInt16 → List Char
  | [] => []
  | [u] => [Char.ofNat u.toNat]
  | u :: v :: rest =>
    if IsHigh u then
      Char.ofNat (0x10000 + (u.toNat - 0xd800) * 0x400 + (v.toNat - 0xdc00)) :: decode rest
    else Char.ofNat u.toNat :: decode (v :: rest)

theorem toNat_ofNat {n : Nat} (valid : n.isValidChar) : (Char.ofNat n).toNat = n := by
  rw [Char.ofNat, dif_pos valid]
  rfl

/-- A code unit that is no surrogate stands for itself. -/
theorem encodeChar_unit {u : UInt16} (high : ¬ IsHigh u) (low : ¬ IsLow u) :
    encodeChar (Char.ofNat u.toNat) = [u] := by
  have bound := u.toNat_lt
  have value : (Char.ofNat u.toNat).toNat = u.toNat := by
    apply toNat_ofNat
    unfold IsHigh at high
    unfold IsLow at low
    unfold Nat.isValidChar
    omega
  rw [encodeChar, value, if_pos bound, UInt16.ofNat_toNat]

/-- A pair of surrogates stands for one scalar value. -/
theorem encodeChar_pair {u v : UInt16} (high : IsHigh u) (low : IsLow v) :
    encodeChar (Char.ofNat (0x10000 + (u.toNat - 0xd800) * 0x400 + (v.toNat - 0xdc00))) =
      [u, v] := by
  obtain ⟨high, high'⟩ := high
  obtain ⟨low, low'⟩ := low
  have value : (Char.ofNat (0x10000 + (u.toNat - 0xd800) * 0x400 + (v.toNat - 0xdc00))).toNat =
      0x10000 + (u.toNat - 0xd800) * 0x400 + (v.toNat - 0xdc00) := by
    apply toNat_ofNat
    unfold Nat.isValidChar
    omega
  have first : 0xd800 + (0x10000 + (u.toNat - 0xd800) * 0x400 + (v.toNat - 0xdc00) - 0x10000) /
      0x400 = u.toNat := by omega
  have second : 0xdc00 + (0x10000 + (u.toNat - 0xd800) * 0x400 + (v.toNat - 0xdc00) - 0x10000) %
      0x400 = v.toNat := by omega
  rw [encodeChar, value, if_neg (by omega), first, second, UInt16.ofNat_toNat,
    UInt16.ofNat_toNat]

theorem encode_decode {units : List UInt16} (wellFormed : WellFormed units) :
    encode (decode units) = units := by
  induction units using decode.induct with
  | case1 => rfl
  | case2 u =>
    obtain ⟨high, low⟩ := wellFormed
    simp [decode, encode, encodeChar_unit high low]
  | case3 u v rest high ih =>
    rw [WellFormed, if_pos high] at wellFormed
    rw [decode, if_pos high, encode, List.flatMap_cons, encodeChar_pair high wellFormed.1]
    exact congrArg (u :: v :: ·) (ih wellFormed.2)
  | case4 u v rest high ih =>
    rw [WellFormed, if_neg high] at wellFormed
    rw [decode, if_neg high, encode, List.flatMap_cons, encodeChar_unit high wellFormed.1]
    exact congrArg (u :: ·) (ih wellFormed.2)

end Utf16
