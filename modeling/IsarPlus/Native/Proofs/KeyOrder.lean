import IsarPlus.Lib.Lexicographic
import IsarPlus.Native.IndexTuple
import Mathlib

/-!
# The order of index keys

Every value but a string is a number written with the width of its type, from which its order can
be read; so are the values before the last one. A string as the last component is raw, except that
null and the empty string are the bytes 0 and 1: there, and nowhere else, keys clash with the
strings that start with these bytes (`Clash`).
-/

namespace IsarPlus.Native
open ByteBuffer Scalar Lexicographic

/-! ## Numbers -/

/-- Flipping the highest bit. -/
theorem flip_highest_bit (w : Nat) {x : Nat} (h : x < 2 ^ (w + 1)) :
    x ^^^ 2 ^ w = if x < 2 ^ w then x + 2 ^ w else x - 2 ^ w := by
  have positive : 0 < 2 ^ w := Nat.two_pow_pos w
  have high : (x ^^^ 2 ^ w) / 2 ^ w = x / 2 ^ w ^^^ 1 := by
    rw [Nat.xor_div_two_pow, Nat.div_self positive]
  have low : (x ^^^ 2 ^ w) % 2 ^ w = x % 2 ^ w := by
    rw [Nat.xor_mod_two_pow, Nat.mod_self, Nat.xor_zero]
  have split := Nat.div_add_mod (x ^^^ 2 ^ w) (2 ^ w)
  rw [high, low] at split
  by_cases below : x < 2 ^ w
  · rw [Nat.div_eq_of_lt below, Nat.mod_eq_of_lt below] at split
    rw [if_pos below, ← split]
    simp [Nat.add_comm]
  · have one : x / 2 ^ w = 1 := by
      rw [pow_succ] at h
      exact Nat.div_eq_of_lt_le (by omega) (by omega)
    rw [one, Nat.mod_eq_sub_mod (by omega), Nat.mod_eq_of_lt (by rw [pow_succ] at h; omega)] at split
    rw [if_neg below, ← split]
    simp

theorem beBytes_succ (n v : Nat) :
    beBytes (n + 1) v = beBytes n (v / 256) ++ [UInt8.ofNat (v % 256)] := by
  simp [beBytes, leBytes]

theorem length_beBytes (n v : Nat) : (beBytes n v).length = n := by
  simp [beBytes]

/-- Big-endian numbers of one width stand in their numeric order. -/
theorem beBytes_order {n v w : Nat} (hv : v < 256 ^ n) (hw : w < 256 ^ n) :
    (beBytes n v = beBytes n w ↔ v = w) ∧ (beBytes n v < beBytes n w ↔ v < w) := by
  induction n generalizing v w with
  | zero =>
    obtain rfl : v = 0 := by omega
    obtain rfl : w = 0 := by omega
    simp
  | succ n ih =>
    rw [pow_succ] at hv hw
    obtain ⟨eq, lt⟩ := @ih (v / 256) (w / 256) (by omega) (by omega)
    have same : (beBytes n (v / 256)).length = (beBytes n (w / 256)).length := by
      rw [length_beBytes, length_beBytes]
    have digit : UInt8.ofNat (v % 256) = UInt8.ofNat (w % 256) ↔ v % 256 = w % 256 := by
      rw [← UInt8.toNat_inj, UInt8.toNat_ofNat', UInt8.toNat_ofNat']
      omega
    have digit' : UInt8.ofNat (v % 256) < UInt8.ofNat (w % 256) ↔ v % 256 < w % 256 := by
      rw [UInt8.lt_iff_toNat_lt, UInt8.toNat_ofNat', UInt8.toNat_ofNat']
      omega
    rw [beBytes_succ, beBytes_succ]
    constructor
    · rw [append_eq_append_iff_of_length same, eq, List.singleton_inj, digit]
      omega
    · rw [append_lt_append_iff_of_length same, eq, lt]
      simp only [List.cons_lt_cons_iff, digit', List.lt_irrefl, and_false, or_false]
      omega

/-! ## Values as numbers -/

section HighestBit
variable {w : Nat} {half : BitVec (w + 1)} (value : half.toNat = 2 ^ w) (x : BitVec (w + 1))
include value

theorem toNat_flip : (x ^^^ half).toNat =
    if x.toNat < 2 ^ w then x.toNat + 2 ^ w else x.toNat - 2 ^ w := by
  rw [BitVec.toNat_xor, value]
  exact flip_highest_bit w x.isLt

/-- A signed number with its highest bit flipped is the number moved up. -/
theorem signed_code : ((x ^^^ half).toNat : Int) = x.toInt + 2 ^ w := by
  have bound := x.isLt
  have moved : (2 : Int) ^ w = (2 ^ w : Nat) := by norm_cast
  rw [toNat_flip value, BitVec.toInt_eq_toNat_cond, pow_succ, moved]
  rw [pow_succ] at bound
  generalize 2 ^ w = h at bound ⊢
  split <;> split <;> omega

/-- A number of a sign and a magnitude, the negative ones inverted, is its place moved up. -/
theorem total_code :
    ((if 2 ^ w ≤ x.toNat then (~~~(x ^^^ half) - half).toNat else (x + half).toNat : Nat) : Int) =
      (if 2 ^ w ≤ x.toNat then -((x.toNat % 2 ^ w : Nat) : Int) - 1 else (x.toNat % 2 ^ w : Nat)) +
        2 ^ w := by
  have bound := x.isLt
  have moved : (2 : Int) ^ w = (2 ^ w : Nat) := by norm_cast
  rw [BitVec.toNat_sub, BitVec.toNat_not, toNat_flip value, BitVec.toNat_add, value, pow_succ, moved]
  rw [pow_succ] at bound
  generalize 2 ^ w = h at bound ⊢
  by_cases negative : h ≤ x.toNat
  · rw [if_pos negative, if_pos negative, if_neg (by omega), Nat.mod_eq_sub_mod (by omega),
      Nat.mod_eq_of_lt (by omega), Nat.mod_eq_sub_mod negative, Nat.mod_eq_of_lt (by omega)]
    omega
  · rw [if_neg negative, if_neg negative, Nat.mod_eq_of_lt (by omega),
      Nat.mod_eq_of_lt (by omega)]
    rfl

end HighestBit

theorem int32_code (v : Int32) : ((v.toUInt32 ^^^ 0x80000000).toNat : Int) = v.toInt + 2 ^ 31 :=
  signed_code (rfl : (0x80000000#32).toNat = 2 ^ 31) v.toBitVec

theorem int64_code (v : Int64) :
    ((v.toUInt64 ^^^ 0x8000000000000000).toNat : Int) = v.toInt + 2 ^ 63 :=
  signed_code (rfl : (0x8000000000000000#64).toNat = 2 ^ 63) v.toBitVec

namespace IndexValue

def dataType : IndexValue → DataType
  | bool _ => .bool
  | byte _ => .byte
  | int _ => .int
  | float _ => .float
  | long _ => .long
  | double _ => .double
  | string _ => .string

/-- Where a value stands among those of its type, with null at the bottom; the floats in their total
order. Strings are not compared by it. -/
def number : IndexValue → WithBot Int
  | bool none => ⊥
  | bool (some value) => if value then 1 else 0
  | byte value => value.toNat
  | int value => if value = nullInt then ⊥ else value.toInt
  | float value => if value.isNan then ⊥ else value.total
  | long value => if value = nullLong then ⊥ else value.toInt
  | double value => if value.isNan then ⊥ else value.total
  | string _ => ⊥

/-- The number that is written for a value that is no string. -/
def code : IndexValue → Nat
  | bool none => 0
  | bool (some value) => if value then 2 else 1
  | byte value => value.toNat
  | int value => (value.toUInt32 ^^^ 0x80000000).toNat
  | float value =>
    if value.isNan then 0
    else if value.isNegative then (~~~(value.bits ^^^ 0x80000000) - 0x80000000).toNat
    else (value.bits + 0x80000000).toNat
  | long value => (value.toUInt64 ^^^ 0x8000000000000000).toNat
  | double value =>
    if value.isNan then 0
    else if value.isNegative then
      (~~~(value.bits ^^^ 0x8000000000000000) - 0x8000000000000000).toNat
    else (value.bits + 0x8000000000000000).toNat
  | string _ => 0

/-- The bytes of one value. -/
def keyBytes (v : IndexValue) : Bytes := (addTo IndexKey.min v).bytes

theorem bytes_addTo (key : IndexKey) (v : IndexValue) :
    (addTo key v).bytes = key.bytes ++ v.keyBytes := by
  cases v with
  | bool value => cases value <;> simp [keyBytes, addTo, IndexKey.addBool, IndexKey.min]
  | float value =>
    by_cases nan : value.isNan <;> simp [keyBytes, addTo, IndexKey.addFloat, IndexKey.min, nan]
  | double value =>
    by_cases nan : value.isNan <;> simp [keyBytes, addTo, IndexKey.addDouble, IndexKey.min, nan]
  | string value => cases value <;> simp [keyBytes, addTo, IndexKey.addString, IndexKey.min]
  | _ => simp [keyBytes, addTo, IndexKey.addByte, IndexKey.addInt, IndexKey.addLong, IndexKey.min]

theorem bytes_foldl (key : IndexKey) (values : List IndexValue) :
    (values.foldl addTo key).bytes = key.bytes ++ values.flatMap keyBytes := by
  induction values generalizing key with
  | nil => simp
  | cons v values ih => simp [ih, bytes_addTo]

/-- A value of a fixed width is its number, big endian. -/
theorem keyBytes_of_fixed {v : IndexValue} (fixed : v.dataType ≠ .string) :
    v.keyBytes = beBytes v.dataType.staticSize v.code := by
  cases v with
  | bool value =>
    cases value with
    | none => rfl
    | some value => cases value <;> rfl
  | byte value =>
    simp [keyBytes, addTo, IndexKey.addByte, IndexKey.min, dataType, DataType.staticSize, code,
      beBytes, leBytes]
  | int value => simp [keyBytes, addTo, IndexKey.addInt, IndexKey.min, dataType,
      DataType.staticSize, code]
  | float value =>
    unfold keyBytes addTo IndexKey.addFloat code
    by_cases nan : value.isNan
    · simp only [nan, if_true]
      rfl
    · simp only [nan, Bool.false_eq_true, if_false, IndexKey.min, List.nil_append]
      split <;> rfl
  | long value => simp [keyBytes, addTo, IndexKey.addLong, IndexKey.min, dataType,
      DataType.staticSize, code]
  | double value =>
    unfold keyBytes addTo IndexKey.addDouble code
    by_cases nan : value.isNan
    · simp only [nan, if_true]
      rfl
    · simp only [nan, Bool.false_eq_true, if_false, IndexKey.min, List.nil_append]
      split <;> rfl
  | string value => exact absurd rfl fixed

/-- By how much the numbers of a type are moved up. -/
def shift : DataType → Int
  | .bool => 1
  | .int | .float => 2 ^ 31
  | .long | .double => 2 ^ 63
  | _ => 0

theorem float_code {v : F32} (nan : v.isNan = false) :
    ((if v.isNegative then (~~~(v.bits ^^^ 0x80000000) - 0x80000000).toNat
      else (v.bits + 0x80000000).toNat : Nat) : Int) = v.total + 2 ^ 31 ∧ -2 ^ 31 < v.total := by
  have coded := total_code (rfl : (0x80000000#32).toNat = 2 ^ 31) v.bits.toBitVec
  have number : ¬ 255 * 2 ^ 23 < v.magnitude := of_decide_eq_false nan
  simp only [F32.total, F32.isNegative, decide_eq_true_eq]
  refine ⟨coded, ?_⟩
  split <;> omega

theorem double_code {v : F64} (nan : v.isNan = false) :
    ((if v.isNegative then (~~~(v.bits ^^^ 0x8000000000000000) - 0x8000000000000000).toNat
      else (v.bits + 0x8000000000000000).toNat : Nat) : Int) = v.total + 2 ^ 63 ∧
    -2 ^ 63 < v.total := by
  have coded := total_code (rfl : (0x8000000000000000#64).toNat = 2 ^ 63) v.bits.toBitVec
  have number : ¬ 2047 * 2 ^ 52 < v.magnitude := of_decide_eq_false nan
  simp only [F64.total, F64.isNegative, decide_eq_true_eq]
  refine ⟨coded, ?_⟩
  split <;> omega

/-- Null is written as 0, any other value as its number moved up. -/
theorem code_spec (v : IndexValue) :
    v.number = ⊥ ∧ v.code = 0 ∨
    ∃ n : Int, v.number = n ∧ (v.code : Int) = n + shift v.dataType ∧
      (v.dataType = .byte ∨ 0 < v.code) := by
  cases v with
  | bool value =>
    cases value with
    | none => exact Or.inl ⟨rfl, rfl⟩
    | some value => cases value <;> exact Or.inr ⟨_, rfl, rfl, Or.inr (by decide)⟩
  | byte value => exact Or.inr ⟨value.toNat, rfl, by simp [code, shift, dataType], Or.inl rfl⟩
  | int value =>
    have coded := int32_code value
    have lower := value.le_toInt
    simp only [number, code, dataType, shift, reduceCtorEq, false_or]
    split
    · rename_i null
      subst null
      exact Or.inl ⟨rfl, by decide⟩
    · rename_i other
      have above : value.toInt ≠ -2 ^ 31 := fun eq =>
        other (Int32.toInt_inj.mp (eq.trans Int32.toInt_minValue.symm))
      exact Or.inr ⟨_, rfl, coded, by omega⟩
  | long value =>
    have coded := int64_code value
    have lower := value.le_toInt
    simp only [number, code, dataType, shift, reduceCtorEq, false_or]
    split
    · rename_i null
      subst null
      exact Or.inl ⟨rfl, by decide⟩
    · rename_i other
      have above : value.toInt ≠ -2 ^ 63 := fun eq =>
        other (Int64.toInt_inj.mp (eq.trans Int64.toInt_minValue.symm))
      exact Or.inr ⟨_, rfl, coded, by omega⟩
  | float value =>
    simp only [number, code, dataType, shift, reduceCtorEq, false_or]
    by_cases nan : value.isNan
    · exact Or.inl ⟨by simp [nan], by simp [nan]⟩
    · obtain ⟨coded, above⟩ := float_code (by simpa using nan)
      simp only [if_neg nan]
      exact Or.inr ⟨_, rfl, coded, by omega⟩
  | double value =>
    simp only [number, code, dataType, shift, reduceCtorEq, false_or]
    by_cases nan : value.isNan
    · exact Or.inl ⟨by simp [nan], by simp [nan]⟩
    · obtain ⟨coded, above⟩ := double_code (by simpa using nan)
      simp only [if_neg nan]
      exact Or.inr ⟨_, rfl, coded, by omega⟩
  | string value => exact Or.inl ⟨rfl, rfl⟩

/-- A byte is never null. -/
theorem number_byte {v : IndexValue} (byte : v.dataType = .byte) : v.number ≠ ⊥ := by
  cases v <;> simp_all [dataType, number]

theorem code_order {a b : IndexValue} (types : a.dataType = b.dataType) :
    (a.code = b.code ↔ a.number = b.number) ∧ (a.code < b.code ↔ a.number < b.number) := by
  rcases a.code_spec with ⟨nullA, codeA⟩ | ⟨n, numberA, codeA, positiveA⟩ <;>
    rcases b.code_spec with ⟨nullB, codeB⟩ | ⟨m, numberB, codeB, positiveB⟩
  · simp [nullA, codeA, nullB, codeB]
  · have positive := positiveB.resolve_left fun byte => number_byte (types.trans byte) nullA
    simp [nullA, codeA, numberB, positive, positive.ne]
  · have positive := positiveA.resolve_left fun byte => number_byte (types ▸ byte) nullB
    simp [nullB, codeB, numberA, positive.ne']
  · rw [types] at codeA
    simp only [numberA, numberB, WithBot.coe_inj, WithBot.coe_lt_coe]
    omega

theorem code_lt {v : IndexValue} (fixed : v.dataType ≠ .string) :
    v.code < 256 ^ v.dataType.staticSize := by
  cases v with
  | bool value =>
    cases value with
    | none => decide
    | some value => cases value <;> decide
  | byte value => exact value.toNat_lt
  | int value => exact UInt32.toNat_lt _
  | long value => exact UInt64.toNat_lt _
  | float value =>
    simp only [code, dataType, DataType.staticSize]
    split
    · decide
    · split <;> exact UInt32.toNat_lt _
  | double value =>
    simp only [code, dataType, DataType.staticSize]
    split
    · decide
    · split <;> exact UInt64.toNat_lt _
  | string value => exact absurd rfl fixed

/-! ## Strings -/

/-- The order of optional strings: null first, then by their bytes. -/
def StringLess : Option Bytes → Option Bytes → Prop
  | none, some _ => True
  | some s, some t => s < t
  | _, none => False

/-- Two strings whose keys are equal or in the wrong order: null and `"\u{0}"`, or the empty string
and `"\u{1}"` or a string that starts with the byte 0. -/
def StringClash (s t : Option Bytes) : Prop :=
  s = none ∧ t = some [0] ∨ s = some [] ∧ (t = some [1] ∨ ∃ rest, t = some (0 :: rest))

/-- The bytes of a string. -/
def stringBytes : Option Bytes → Bytes
  | none => [0]
  | some value => if value.isEmpty then [1] else value

theorem keyBytes_string (value : Option Bytes) : (string value).keyBytes = stringBytes value := by
  cases value <;> rfl

theorem one_lt_byte {b : UInt8} : 1 < b ↔ b ≠ 0 ∧ b ≠ 1 := by grind

theorem nil_lt_bytes {bytes : Bytes} : [] < bytes ↔ bytes ≠ [] := by
  cases bytes <;> simp

/-- Keys of strings keep them apart and in order unless they clash. -/
theorem string_order (s t : Option Bytes) :
    ((stringBytes s = stringBytes t ↔ s = t) ∧ (stringBytes s < stringBytes t ↔ StringLess s t)) ↔
      ¬ (StringClash s t ∨ StringClash t s) := by
  -- Null, the empty string and a string with a first byte.
  rcases s with _ | _ | ⟨b, rest⟩ <;> rcases t with _ | _ | ⟨c, rest'⟩ <;>
    simp only [stringBytes, StringLess, StringClash]
  · simp
  · simp [List.cons_lt_cons_iff]
  · simp [List.cons_lt_cons_iff, nil_lt_bytes]
    grind
  · simp [List.cons_lt_cons_iff]
  · simp
  · simp [List.cons_lt_cons_iff, nil_lt_bytes, one_lt_byte]
    grind
  · simp [List.cons_lt_cons_iff]
  · simp [List.cons_lt_cons_iff]
  · simp

/-! ## Tuples -/

/-- Two values of one type are the same, all NaNs being null. -/
def Same (a b : IndexValue) : Prop :=
  match a, b with
  | string s, string t => s = t
  | a, b => a.number = b.number

/-- The order of the values of one type. -/
def Less (a b : IndexValue) : Prop :=
  match a, b with
  | string s, string t => StringLess s t
  | a, b => a.number < b.number

def TupleSame : List IndexValue → List IndexValue → Prop
  | [], [] => True
  | a :: as, b :: bs => a.Same b ∧ TupleSame as bs
  | _, _ => False

/-- The lexicographic order of tuples of the same types. -/
def TupleLess : List IndexValue → List IndexValue → Prop
  | a :: as, b :: bs => a.Less b ∨ a.Same b ∧ TupleLess as bs
  | _, _ => False

/-- Tuples that differ in their last components only, which are strings with clashing keys. -/
def Clash : List IndexValue → List IndexValue → Prop
  | [string s], [string t] => StringClash s t ∨ StringClash t s
  | a :: as, b :: bs => a.Same b ∧ Clash as bs
  | _, _ => False

theorem fixed_order {a b : IndexValue} (types : a.dataType = b.dataType)
    (fixed : a.dataType ≠ .string) :
    (a.keyBytes = b.keyBytes ↔ a.Same b) ∧ (a.keyBytes < b.keyBytes ↔ a.Less b) := by
  have fixed' : b.dataType ≠ .string := types ▸ fixed
  have same : a.Same b ↔ a.number = b.number := by
    cases a <;> first | rfl | exact absurd rfl fixed
  have less : a.Less b ↔ a.number < b.number := by
    cases a <;> first | rfl | exact absurd rfl fixed
  have order := beBytes_order (code_lt fixed) (types ▸ code_lt fixed')
  rw [same, less, keyBytes_of_fixed fixed, keyBytes_of_fixed fixed', ← types]
  exact ⟨order.1.trans (code_order types).1, order.2.trans (code_order types).2⟩

theorem less_of_same {a b : IndexValue} (fixed : a.dataType ≠ .string) (same : a.Same b) :
    a.Less b ↔ False := by
  rw [iff_false]
  cases a with
  | string s => exact absurd rfl fixed
  | _ => exact fun less => absurd (show _ = _ from same) (ne_of_lt less)

theorem clash_cons {a b : IndexValue} {as bs : List IndexValue} (fixed : a.dataType ≠ .string) :
    Clash (a :: as) (b :: bs) ↔ a.Same b ∧ Clash as bs := by
  cases a with
  | string s => exact absurd rfl fixed
  | _ => rfl

/-- The keys of two tuples of the same types keep them apart and in order just when the tuples do
not clash. -/
theorem tuple_order {as bs : List IndexValue} (types : as.map dataType = bs.map dataType)
    (strings : ∀ t ∈ (as.map dataType).dropLast, t ≠ .string) :
    ((as.flatMap keyBytes = bs.flatMap keyBytes ↔ TupleSame as bs) ∧
      (as.flatMap keyBytes < bs.flatMap keyBytes ↔ TupleLess as bs)) ↔ ¬ Clash as bs := by
  induction as generalizing bs with
  | nil =>
    cases bs with
    | nil => simp [TupleSame, TupleLess, Clash]
    | cons b bs => simp at types
  | cons a as ih =>
    cases bs with
    | nil => simp at types
    | cons b bs =>
      obtain ⟨type, types⟩ := List.cons.inj types
      by_cases text : a.dataType = .string
      · -- A string is the last component.
        cases as with
        | cons a' as => exact absurd text (strings _ (by simp))
        | nil =>
          obtain rfl : bs = [] := by simpa using types.symm
          cases a with
          | string s =>
            cases b with
            | string t =>
              simpa [TupleSame, TupleLess, Clash, Same, Less, keyBytes_string] using
                string_order s t
            | _ => simp [dataType] at type
          | _ => simp [dataType] at text
      · have order := fixed_order type text
        have length : a.keyBytes.length = b.keyBytes.length := by
          rw [keyBytes_of_fixed text, keyBytes_of_fixed (type ▸ text), length_beBytes,
            length_beBytes, type]
        have rest := ih types fun t mem => by
          apply strings t
          cases as with
          | nil => simp at mem
          | cons a' as => simpa using Or.inr mem
        rw [List.flatMap_cons, List.flatMap_cons, append_eq_append_iff_of_length length,
          append_lt_append_iff_of_length length, order.1, order.2, TupleSame, TupleLess,
          clash_cons text]
        by_cases same : a.Same b
        · simp only [same, true_and, less_of_same text same, false_or]
          exact rest
        · simp [same]

end IndexValue

namespace NativeIndex
open IndexValue

theorem encode_of_short {xxh3_64 : Bytes → UInt64} {index : NativeIndex} {values : List IndexValue}
    (unhashed : index.hash = false)
    (short : (values.foldl addTo IndexKey.min).bytes.length ≤ IndexKey.maxIndexSize) :
    index.encode xxh3_64 values = values.flatMap keyBytes := by
  simp only [encode, unhashed, Bool.false_eq_true, if_false, IndexKey.finish]
  rw [if_neg (not_lt.mpr short), bytes_foldl]
  simp [IndexKey.min]

/-- Two tuples of the same property types, with a string only as the last, have equal keys just
when they are equal, and keys in the order of the tuples, unless they clash. -/
theorem key_order_exact {xxh3_64 : Bytes → UInt64} {index : NativeIndex} {as bs : List IndexValue}
    (unhashed : index.hash = false) (types : as.map dataType = bs.map dataType)
    (strings : ∀ t ∈ (as.map dataType).dropLast, t ≠ .string)
    (shortA : (as.foldl addTo IndexKey.min).bytes.length ≤ IndexKey.maxIndexSize)
    (shortB : (bs.foldl addTo IndexKey.min).bytes.length ≤ IndexKey.maxIndexSize) :
    ((index.encode xxh3_64 as = index.encode xxh3_64 bs ↔ TupleSame as bs) ∧
      (index.encode xxh3_64 as < index.encode xxh3_64 bs ↔ TupleLess as bs)) ↔
      ¬ Clash as bs := by
  rw [encode_of_short unhashed shortA, encode_of_short unhashed shortB]
  exact tuple_order types strings

/-- An index on an integer and a string. -/
def ageAndName : NativeIndex where
  name := "ageName"
  properties := []
  unique := false
  hash := false
  db := "_Person_ageName"

theorem ageAndName_order :
    ((ageAndName.encode (fun _ => 0) [.int 7, .string none] =
          ageAndName.encode (fun _ => 0) [.int 7, .string (some [65])] ↔
        TupleSame [.int 7, .string none] [.int 7, .string (some [65])]) ∧
      (ageAndName.encode (fun _ => 0) [.int 7, .string none] <
          ageAndName.encode (fun _ => 0) [.int 7, .string (some [65])] ↔
        TupleLess [.int 7, .string none] [.int 7, .string (some [65])])) ↔
      ¬ Clash [.int 7, .string none] [.int 7, .string (some [65])] := by
  apply key_order_exact
  · rfl
  · rfl
  · decide
  · decide
  · decide

/-- The null string and the string of one zero character are different and have the same key; the
empty string is below that string of a zero character, and its key is above. -/
theorem null_and_zero_share_key :
    ageAndName.encode (fun _ => 0) [.int 7, .string none] =
        ageAndName.encode (fun _ => 0) [.int 7, .string (some [0])] ∧
      ¬ TupleSame [.int 7, .string none] [.int 7, .string (some [0])] ∧
      TupleLess [.int 7, .string (some [])] [.int 7, .string (some [0])] ∧
      ageAndName.encode (fun _ => 0) [.int 7, .string (some [0])] <
        ageAndName.encode (fun _ => 0) [.int 7, .string (some [])] := by
  refine ⟨by decide, ?_, ?_, by decide⟩
  · simp [TupleSame, Same]
  · simp [TupleLess, Less, Same, StringLess]

end NativeIndex

end IsarPlus.Native
