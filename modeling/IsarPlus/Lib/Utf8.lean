import IsarPlus.Lib.Scalar
import Mathlib.Data.Char
import Mathlib.Data.List.Lex

/-!
# UTF-8

The UTF-8 bytes of a list of Unicode scalar values. Comparing the bytes lexicographically compares
the scalar values, so that encoding is injective and keeps the order of strings.
-/

namespace Utf8

/-- The UTF-8 bytes of `s`. -/
def encode (s : List Char) : List UInt8 := s.flatMap String.utf8EncodeChar

@[simp] theorem encode_nil : encode [] = [] := rfl

@[simp] theorem encode_cons (c : Char) (s : List Char) :
    encode (c :: s) = String.utf8EncodeChar c ++ encode s := rfl

@[simp] theorem encode_append (s t : List Char) : encode (s ++ t) = encode s ++ encode t :=
  List.flatMap_append

theorem encode_eq_nil {s : List Char} : encode s = [] ↔ s = [] := by
  cases s with
  | nil => simp
  | cons c s => simp [String.utf8EncodeChar_ne_nil]

private theorem cons_ofNat_lt {a b : Nat} (ha : a < 256) (hb : b < 256) {x y : List UInt8}
    (h : a < b ∨ (a = b ∧ x < y)) : UInt8.ofNat a :: x < UInt8.ofNat b :: y := by
  rw [List.cons_lt_cons_iff, UInt8.lt_iff_toNat_lt, ← UInt8.toNat_inj, UInt8.toNat_ofNat_of_lt' ha,
    UInt8.toNat_ofNat_of_lt' hb]
  exact h

/-- The string of valid UTF-8 bytes. -/
def decode (bytes : List UInt8) : Option (List Char) :=
  bytes.toByteArray.utf8Decode?.map Array.toList

@[simp] theorem decode_encode (s : List Char) : decode (encode s) = some s := by
  have same : (encode s).toByteArray = s.utf8Encode := rfl
  rw [decode, same, List.utf8Decode?_utf8Encode]
  rfl

/-- Only the encoded bytes are decoded. -/
theorem encode_of_decode {bytes : List UInt8} {s : List Char} (decodes : decode bytes = some s) :
    encode s = bytes := by
  obtain ⟨chars, found, eq⟩ := Option.map_eq_some_iff.mp decodes
  have isSome : bytes.toByteArray.utf8Decode?.isSome = true := by rw [found]; rfl
  have back : ((bytes.toByteArray.utf8Decode?).get isSome).toList.utf8Encode = bytes.toByteArray :=
    ByteArray.utf8Encode_get_utf8Decode?
  have value : (bytes.toByteArray.utf8Decode?).get isSome = chars := by
    simp only [found, Option.get_some]
  rw [value, eq] at back
  exact List.toByteArray_inj.mp back

theorem toNat_lt (c : Char) : c.val.toNat < 0x110000 := by
  rcases c.valid with h | h
  · have : c.val.toNat < 0xd800 := h
    omega
  · exact h.2

/-- The encodings of two different scalar values differ within both of them, the smaller value
having the smaller byte there. -/
theorem encodeChar_append_lt {c d : Char} (h : c < d) (x y : List UInt8) :
    String.utf8EncodeChar c ++ x < String.utf8EncodeChar d ++ y := by
  have lt : c.val.toNat < d.val.toNat := h
  have bound := toNat_lt d
  unfold String.utf8EncodeChar
  generalize c.val.toNat = v at *
  generalize d.val.toNat = w at *
  clear h
  dsimp only
  -- Encodings of different lengths already differ in the first byte.
  split_ifs <;> simp only [List.cons_append, List.nil_append] <;> first
    | omega
    | (refine cons_ofNat_lt (by omega) (by omega) (Or.inl ?_); omega)
    | skip
  · have digits : v / 64 % 32 < w / 64 % 32 ∨ (v / 64 % 32 = w / 64 % 32 ∧ v % 64 < w % 64) := by
      omega
    rcases digits with first | ⟨first, second⟩
    · exact cons_ofNat_lt (by omega) (by omega) (Or.inl (by omega))
    · refine cons_ofNat_lt (by omega) (by omega) (Or.inr ⟨by omega, ?_⟩)
      exact cons_ofNat_lt (by omega) (by omega) (Or.inl (by omega))
  · have digits : v / 4096 % 16 < w / 4096 % 16 ∨ (v / 4096 % 16 = w / 4096 % 16 ∧
        (v / 64 % 64 < w / 64 % 64 ∨ (v / 64 % 64 = w / 64 % 64 ∧ v % 64 < w % 64))) := by
      omega
    rcases digits with first | ⟨first, second | ⟨second, third⟩⟩
    · exact cons_ofNat_lt (by omega) (by omega) (Or.inl (by omega))
    · refine cons_ofNat_lt (by omega) (by omega) (Or.inr ⟨by omega, ?_⟩)
      exact cons_ofNat_lt (by omega) (by omega) (Or.inl (by omega))
    · refine cons_ofNat_lt (by omega) (by omega) (Or.inr ⟨by omega, ?_⟩)
      refine cons_ofNat_lt (by omega) (by omega) (Or.inr ⟨by omega, ?_⟩)
      exact cons_ofNat_lt (by omega) (by omega) (Or.inl (by omega))
  · have low : v / 64 < w / 64 ∨ (v / 64 = w / 64 ∧ v % 64 < w % 64) := by omega
    have middle (h : v / 64 < w / 64) :
        v / 4096 < w / 4096 ∨ (v / 4096 = w / 4096 ∧ v / 64 % 64 < w / 64 % 64) := by omega
    have high (h : v / 4096 < w / 4096) :
        v / 262144 < w / 262144 ∨ (v / 262144 = w / 262144 ∧ v / 4096 % 64 < w / 4096 % 64) := by
      omega
    have digits : v / 262144 % 8 < w / 262144 % 8 ∨ (v / 262144 % 8 = w / 262144 % 8 ∧
        (v / 4096 % 64 < w / 4096 % 64 ∨ (v / 4096 % 64 = w / 4096 % 64 ∧
        (v / 64 % 64 < w / 64 % 64 ∨ (v / 64 % 64 = w / 64 % 64 ∧ v % 64 < w % 64))))) := by
      rcases low with lt | ⟨eq, lt⟩
      · rcases middle lt with lt | ⟨eq, lt⟩
        · rcases high lt with lt | ⟨eq, lt⟩
          · exact Or.inl (by omega)
          · exact Or.inr ⟨by omega, Or.inl lt⟩
        · exact Or.inr ⟨by omega, Or.inr ⟨by omega, Or.inl lt⟩⟩
      · exact Or.inr ⟨by omega, Or.inr ⟨by omega, Or.inr ⟨by omega, lt⟩⟩⟩
    rcases digits with first | ⟨first, second | ⟨second, third | ⟨third, fourth⟩⟩⟩
    · exact cons_ofNat_lt (by omega) (by omega) (Or.inl (by omega))
    · refine cons_ofNat_lt (by omega) (by omega) (Or.inr ⟨by omega, ?_⟩)
      exact cons_ofNat_lt (by omega) (by omega) (Or.inl (by omega))
    · refine cons_ofNat_lt (by omega) (by omega) (Or.inr ⟨by omega, ?_⟩)
      refine cons_ofNat_lt (by omega) (by omega) (Or.inr ⟨by omega, ?_⟩)
      exact cons_ofNat_lt (by omega) (by omega) (Or.inl (by omega))
    · refine cons_ofNat_lt (by omega) (by omega) (Or.inr ⟨by omega, ?_⟩)
      refine cons_ofNat_lt (by omega) (by omega) (Or.inr ⟨by omega, ?_⟩)
      refine cons_ofNat_lt (by omega) (by omega) (Or.inr ⟨by omega, ?_⟩)
      exact cons_ofNat_lt (by omega) (by omega) (Or.inl (by omega))

theorem append_lt_append_left (p : List UInt8) {x y : List UInt8} (h : x < y) :
    p ++ x < p ++ y := by
  induction p with
  | nil => exact h
  | cons b p ih => exact List.cons_lt_cons_iff.mpr (Or.inr ⟨rfl, ih⟩)

/-- Comparing the encodings compares the strings. -/
theorem encode_lt {s t : List Char} (h : s < t) : encode s < encode t := by
  induction s generalizing t with
  | nil =>
    cases t with
    | nil => exact absurd h (lt_irrefl _)
    | cons d t =>
      have nonempty : encode (d :: t) ≠ [] := fun eq => List.cons_ne_nil d t (encode_eq_nil.mp eq)
      obtain ⟨b, x, eq⟩ := List.exists_cons_of_ne_nil nonempty
      rw [eq]
      exact List.nil_lt_cons b x
  | cons c s ih =>
    cases t with
    | nil => exact absurd h (List.not_lt_nil _)
    | cons d t =>
      rcases List.cons_lt_cons_iff.mp h with lt | ⟨rfl, lt⟩
      · exact encodeChar_append_lt lt _ _
      · exact append_lt_append_left _ (ih lt)

theorem encode_strictMono : StrictMono encode := fun _ _ => encode_lt

theorem encode_injective : Function.Injective encode := encode_strictMono.injective

/-- Encodings of characters are told apart by what they begin with. -/
theorem encodeChar_append_inj {c d : Char} {x y : List UInt8}
    (h : String.utf8EncodeChar c ++ x = String.utf8EncodeChar d ++ y) : c = d ∧ x = y := by
  rcases lt_trichotomy c d with lt | rfl | lt
  · exact absurd h (encodeChar_append_lt lt x y).ne
  · exact ⟨rfl, List.append_cancel_left h⟩
  · exact absurd h (encodeChar_append_lt lt y x).ne'

/-- The bytes after the first one of a character. -/
def IsContinuation (b : UInt8) : Prop := b.toNat / 64 = 2

/-- The first byte of a character is told apart from the others. -/
theorem encodeChar_eq_cons (c : Char) : ∃ b bs, String.utf8EncodeChar c = b :: bs ∧
    ¬ IsContinuation b ∧ ∀ b' ∈ bs, IsContinuation b' := by
  have bound := toNat_lt c
  have byte {n : Nat} (h : n < 256) : (UInt8.ofNat n).toNat = n := UInt8.toNat_ofNat_of_lt' h
  unfold String.utf8EncodeChar
  generalize c.val.toNat = v at *
  dsimp only
  split_ifs
  all_goals
    refine ⟨_, _, rfl, ?_, ?_⟩
    · unfold IsContinuation
      rw [byte (by omega)]
      omega
    · simp only [List.mem_cons, List.not_mem_nil, or_false, IsContinuation]
      first
        | exact fun _ => False.elim
        | rintro b' (rfl | rfl | rfl) <;>
            (rw [byte (by omega)]
             omega)

/-- A character is found in an encoded string only where it is. -/
theorem encode_eq_append_encodeChar {s : List Char} {x y : List UInt8} {c : Char}
    (h : encode s = x ++ (String.utf8EncodeChar c ++ y)) :
    ∃ u v, s = u ++ c :: v ∧ encode u = x ∧ encode v = y := by
  induction s generalizing x with
  | nil =>
    have := @String.utf8EncodeChar_ne_nil c
    simp_all
  | cons d s ih =>
    rw [encode_cons] at h
    rcases List.append_eq_append_iff.mp h with ⟨z, rfl, rest⟩ | ⟨z, split, rest⟩
    · -- The character `d` ends before `c` begins.
      obtain ⟨u, v, rfl, rfl, rfl⟩ := ih rest
      exact ⟨d :: u, v, rfl, rfl, rfl⟩
    · cases x with
      | nil =>
        rw [List.nil_append] at h
        obtain ⟨rfl, rfl⟩ := encodeChar_append_inj h
        exact ⟨[], s, rfl, rfl, rfl⟩
      | cons b x =>
        cases z with
        | nil =>
          obtain ⟨u, v, rfl, same, rfl⟩ := @ih [] (by simpa using rest.symm)
          obtain rfl := encode_eq_nil.mp same
          exact ⟨[d], v, rfl, by simpa using split, rfl⟩
        | cons b' z =>
          -- Otherwise the first byte of `c` would be a later byte of `d`.
          obtain ⟨first, later, shape, -, continues⟩ := encodeChar_eq_cons d
          obtain ⟨first', later', shape', starts, -⟩ := encodeChar_eq_cons c
          rw [shape, List.cons_append, List.cons.injEq] at split
          rw [shape', List.cons_append, List.cons_append, List.cons.injEq] at rest
          exact absurd (continues b' (by simp [split.2])) (rest.1 ▸ starts)

/-- A byte that is a character by itself occurs in no other character. -/
theorem eq_of_mem_encodeChar {c d : Char} {b : UInt8} (mem : b ∈ String.utf8EncodeChar c)
    (h : String.utf8EncodeChar d = [b]) : c = d := by
  obtain ⟨x, y, split⟩ := List.append_of_mem mem
  have found : encode [c] = x ++ (String.utf8EncodeChar d ++ y) := by
    rw [h, encode_cons, split]
    simp
  obtain ⟨u, v, same, -, -⟩ := encode_eq_append_encodeChar found
  cases u with
  | nil => exact (List.cons.inj same).1
  | cons e u => simp at same

theorem encode_le_iff {s t : List Char} : encode s ≤ encode t ↔ s ≤ t :=
  encode_strictMono.le_iff_le

end Utf8
