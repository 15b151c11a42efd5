import Mathlib.Data.Nat.Basic
import Mathlib.Data.List.Basic
import Mathlib.Tactic.Ring

/-!
# Byte buffers

Little-endian numbers in a list of bytes, reads and writes of a range that fail outside the
buffer, and what a write leaves unchanged. `At b off bs` says that the bytes `bs` stand in `b`
from `off`; every read below is computed from such facts, and a write keeps those that lie
outside the range it touches.
-/

abbrev Bytes := List UInt8

namespace ByteBuffer

/-! ## Little-endian numbers -/

/-- The number that `bs` stores, least significant byte first. -/
def leNat : Bytes → Nat
  | [] => 0
  | b :: bs => b.toNat + 256 * leNat bs

/-- The `n` low bytes of `v`, least significant byte first. -/
def leBytes : Nat → Nat → Bytes
  | 0, _ => []
  | n + 1, v => UInt8.ofNat (v % 256) :: leBytes n (v / 256)

@[simp] theorem length_leBytes (n v : Nat) : (leBytes n v).length = n := by
  induction n generalizing v with
  | zero => rfl
  | succ n ih => simp [leBytes, ih]

theorem leNat_leBytes (n v : Nat) : leNat (leBytes n v) = v % 256 ^ n := by
  induction n generalizing v with
  | zero => simp [leBytes, leNat, Nat.mod_one]
  | succ n ih =>
    have byte : (UInt8.ofNat (v % 256)).toNat = v % 256 := by simp
    simp only [leBytes, leNat, ih, byte]
    rw [Nat.pow_succ, Nat.mul_comm (256 ^ n) 256, Nat.mod_mul]

theorem leNat_leBytes_of_lt {n v : Nat} (h : v < 256 ^ n) : leNat (leBytes n v) = v := by
  rw [leNat_leBytes, Nat.mod_eq_of_lt h]

theorem leNat_lt (bs : Bytes) : leNat bs < 256 ^ bs.length := by
  induction bs with
  | nil => simp [leNat]
  | cons b bs ih =>
    have hb : b.toNat < 256 := b.toNat_lt
    simp only [leNat, List.length_cons, Nat.pow_succ]
    omega

theorem leBytes_leNat (bs : Bytes) : leBytes bs.length (leNat bs) = bs := by
  induction bs with
  | nil => rfl
  | cons b bs ih =>
    have hb : b.toNat < 256 := b.toNat_lt
    have low : (b.toNat + 256 * leNat bs) % 256 = b.toNat := by omega
    have high : (b.toNat + 256 * leNat bs) / 256 = leNat bs := by omega
    simp only [leNat, List.length_cons, leBytes, low, high, ih, UInt8.ofNat_toNat]

/-! ## Ranges -/

/-- `b[off .. off + n]`, absent where a slice expression would be out of bounds. -/
def slice (b : Bytes) (off n : Nat) : Option Bytes :=
  if off + n ≤ b.length then some ((b.drop off).take n) else none

/-- Overwrites `b[off .. off + bs.length]` with `bs`, failing out of bounds. -/
def splice (b : Bytes) (off : Nat) (bs : Bytes) : Option Bytes :=
  if off + bs.length ≤ b.length then
    some (b.take off ++ bs ++ b.drop (off + bs.length))
  else none

/-- The bytes `bs` stand in `b` from offset `off`. -/
def At (b : Bytes) (off : Nat) (bs : Bytes) : Prop := slice b off bs.length = some bs

theorem at_iff {b bs : Bytes} {off : Nat} :
    At b off bs ↔ off + bs.length ≤ b.length ∧ ∀ i < bs.length, b[off + i]? = bs[i]? := by
  unfold At slice
  constructor
  · intro h
    split at h
    · rename_i bound
      refine ⟨bound, fun i hi => ?_⟩
      have eq : (b.drop off).take bs.length = bs := by simpa using h
      rw [← eq, List.getElem?_take, if_pos hi, List.getElem?_drop]
    · cases h
  · rintro ⟨bound, same⟩
    rw [if_pos bound]
    congr 1
    apply List.ext_getElem?
    intro i
    rw [List.getElem?_take, List.getElem?_drop]
    split
    · rename_i hi
      exact same i hi
    · rename_i hi
      rw [List.getElem?_eq_none (by omega)]

theorem At.bound {b bs : Bytes} {off : Nat} (h : At b off bs) : off + bs.length ≤ b.length :=
  (at_iff.mp h).1

theorem slice_eq_some {b bs : Bytes} {off n : Nat} :
    slice b off n = some bs ↔ bs.length = n ∧ At b off bs := by
  constructor
  · intro h
    have len : bs.length = n := by
      unfold slice at h
      split at h
      · rename_i bound
        cases h
        simp
        omega
      · cases h
    subst len
    exact ⟨rfl, h⟩
  · rintro ⟨rfl, h⟩
    exact h

theorem At.left {b xs ys : Bytes} {off : Nat} (h : At b off (xs ++ ys)) : At b off xs := by
  rw [at_iff] at h ⊢
  refine ⟨by simp at h; omega, fun i hi => ?_⟩
  rw [h.2 i (by simp; omega), List.getElem?_append_left hi]

theorem At.right {b xs ys : Bytes} {off : Nat} (h : At b off (xs ++ ys)) :
    At b (off + xs.length) ys := by
  rw [at_iff] at h ⊢
  refine ⟨by simp at h; omega, fun i hi => ?_⟩
  rw [Nat.add_assoc, h.2 _ (by simp; omega), List.getElem?_append_right (by omega)]
  congr 1
  omega

/-- Dropping a prefix shifts the offsets. -/
theorem at_drop {b bs : Bytes} {base off : Nat} (hb : base ≤ b.length) :
    At (b.drop base) off bs ↔ At b (base + off) bs := by
  simp only [at_iff, List.length_drop, List.getElem?_drop, Nat.add_assoc]
  constructor
  · rintro ⟨bound, same⟩
    exact ⟨by omega, same⟩
  · rintro ⟨bound, same⟩
    exact ⟨by omega, same⟩

theorem at_append_right (b bs rest : Bytes) : At (b ++ bs ++ rest) b.length bs := by
  rw [at_iff]
  refine ⟨by simp, fun i hi => ?_⟩
  rw [List.append_assoc, List.getElem?_append_right (by omega), Nat.add_sub_cancel_left,
    List.getElem?_append_left hi]

/-! ## Writes -/

/-- The bytes of `b` and `b'` agree on `[lo, hi)`. -/
def AgreeOn (b b' : Bytes) (lo hi : Nat) : Prop := ∀ i, lo ≤ i → i < hi → b[i]? = b'[i]?

theorem AgreeOn.refl (b : Bytes) (lo hi : Nat) : AgreeOn b b lo hi := fun _ _ _ => rfl

theorem AgreeOn.trans {b b' b'' : Bytes} {lo hi : Nat} (h : AgreeOn b b' lo hi)
    (h' : AgreeOn b' b'' lo hi) : AgreeOn b b'' lo hi :=
  fun i hl hh => (h i hl hh).trans (h' i hl hh)

theorem AgreeOn.mono {b b' : Bytes} {lo hi lo' hi' : Nat} (h : AgreeOn b b' lo hi)
    (hl : lo ≤ lo') (hh : hi' ≤ hi) : AgreeOn b b' lo' hi' :=
  fun i h1 h2 => h i (by omega) (by omega)

/-- What stands in a range still stands there in a buffer that agrees on the range. -/
theorem At.congr {b b' bs : Bytes} {off : Nat} (h : At b off bs)
    (agree : AgreeOn b b' off (off + bs.length)) (bound : off + bs.length ≤ b'.length) :
    At b' off bs := by
  rw [at_iff] at h ⊢
  exact ⟨bound, fun i hi => by rw [← agree (off + i) (by omega) (by omega), h.2 i hi]⟩

theorem splice_isSome {b bs : Bytes} {off : Nat} (h : off + bs.length ≤ b.length) :
    ∃ b', splice b off bs = some b' := ⟨_, if_pos h⟩

theorem splice_eq_some {b b' bs : Bytes} {off : Nat} (h : splice b off bs = some b') :
    off + bs.length ≤ b.length ∧ b' = b.take off ++ bs ++ b.drop (off + bs.length) := by
  unfold splice at h
  split at h
  · rename_i bound
    exact ⟨bound, by simpa using h.symm⟩
  · cases h

theorem length_splice {b b' bs : Bytes} {off : Nat} (h : splice b off bs = some b') :
    b'.length = b.length := by
  obtain ⟨bound, rfl⟩ := splice_eq_some h
  simp
  omega

/-- The bytes just written. -/
theorem at_splice {b b' bs : Bytes} {off : Nat} (h : splice b off bs = some b') :
    At b' off bs := by
  obtain ⟨bound, rfl⟩ := splice_eq_some h
  have len : (b.take off).length = off := by simp; omega
  simpa only [len] using at_append_right (b.take off) bs (b.drop (off + bs.length))

/-- A write leaves every byte outside its range unchanged. -/
theorem getElem?_splice {b b' bs : Bytes} {off i : Nat} (h : splice b off bs = some b')
    (hi : i < off ∨ off + bs.length ≤ i) : b'[i]? = b[i]? := by
  obtain ⟨bound, rfl⟩ := splice_eq_some h
  have len : (b.take off).length = off := by simp; omega
  rcases hi with hi | hi
  · rw [List.append_assoc, List.getElem?_append_left (by omega), List.getElem?_take, if_pos hi]
  · rw [List.getElem?_append_right (by simp; omega), List.getElem?_drop]
    congr 1
    simp
    omega

theorem AgreeOn.splice {b b' bs : Bytes} {off lo hi : Nat} (h : splice b off bs = some b')
    (disjoint : hi ≤ off ∨ off + bs.length ≤ lo) : AgreeOn b b' lo hi := by
  intro i hl hh
  exact (getElem?_splice h (by omega)).symm

theorem agreeOn_append (b rest : Bytes) {lo hi : Nat} (h : hi ≤ b.length) :
    AgreeOn b (b ++ rest) lo hi := by
  intro i _ hh
  rw [List.getElem?_append_left (by omega)]

/-! ## Numbers in a buffer -/

/-- The `n`-byte number at `off`. -/
def readLe (b : Bytes) (off n : Nat) : Option Nat := (slice b off n).map leNat

/-- Writes `v` as an `n`-byte number at `off`; a number that does not fit is refused. -/
def writeLe (b : Bytes) (off n v : Nat) : Option Bytes :=
  if v < 256 ^ n then splice b off (leBytes n v) else none

theorem readLe_of_at {b : Bytes} {off n v : Nat} (h : At b off (leBytes n v))
    (hv : v < 256 ^ n) : readLe b off n = some v := by
  have : slice b off n = some (leBytes n v) := slice_eq_some.mpr ⟨by simp, h⟩
  simp [readLe, this, leNat_leBytes_of_lt hv]

theorem at_of_readLe {b : Bytes} {off n v : Nat} (h : readLe b off n = some v) :
    At b off (leBytes n v) ∧ v < 256 ^ n := by
  unfold readLe at h
  cases hs : slice b off n with
  | none => simp [hs] at h
  | some bs =>
    simp only [hs, Option.map_some, Option.some.injEq] at h
    obtain ⟨len, hat⟩ := slice_eq_some.mp hs
    subst len h
    exact ⟨by rwa [leBytes_leNat], leNat_lt bs⟩

end ByteBuffer
