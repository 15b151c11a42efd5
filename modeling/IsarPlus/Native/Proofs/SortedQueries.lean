import IsarPlus.Lib.SortKeys
import IsarPlus.Native.Proofs.QueryIterators

/-!
# Sorted native queries

The comparison of a sort reads null of a float property as a number like others: the order is that
of the bits, where the null that is stored is above all numbers and the zeros differ.
-/

namespace IsarPlus.Native
open ByteBuffer Scalar SortKeys

/-- A property or the id, with a direction and whether the case of strings matters. -/
abbrev SortKey := Option NativeProperty × SortOrder × Bool

/-- A value that is sorted by, where null is the least. Numbers come in their order, strings in
that of their characters. -/
abbrev SortValue := WithBot (Int ×ₗ List Char)

namespace SortValue

def number (n : Int) : SortValue := WithBot.some (toLex (n, []))

def text (s : List Char) : SortValue := WithBot.some (toLex (0, s))

end SortValue

namespace SortKey
open SortValue

def descends (key : SortKey) : Bool := key.2.1 = .desc

/-- The key is a float or a double. -/
def IsReal (key : SortKey) : Prop :=
  ∃ p, key.1 = some p ∧ (p.dataType = .float ∨ p.dataType = .double)

variable (toLowercase : List Char → List Char)

/-- The value of an object under the key; objects, lists and json are not ordered, so that they all read
as the least value. -/
def read (key : SortKey) (o : QueryObject) : Option SortValue :=
  match key.1 with
  | none => some (number o.1.toInt)
  | some p =>
    match p.dataType with
    | .bool => (o.2.readBool p.offset).map fun v =>
        v.elim ⊥ fun value => number (if value then 1 else 0)
    | .byte => (o.2.readByte p.offset).map fun v => number v.toNat
    | .int => (o.2.readInt p.offset).map fun v => if v = nullInt then ⊥ else number v.toInt
    | .float => (o.2.readFloat p.offset).map fun v => if v.isNan then ⊥ else number v.rank
    | .long => (o.2.readLong p.offset).map fun v => if v = nullLong then ⊥ else number v.toInt
    | .double => (o.2.readDouble p.offset).map fun v => if v.isNan then ⊥ else number v.rank
    | .string => (o.2.readStr p.offset).map fun v =>
        v.elim ⊥ fun s => text (if key.2.2 then s else toLowercase s)
    | _ => some ⊥

/-- What `compare_property` goes by, which differs for floats: their place in the total order. -/
def readCompared (key : SortKey) (o : QueryObject) : Option SortValue :=
  match key.1 with
  | none => read toLowercase key o
  | some p =>
    match p.dataType with
    | .float => (o.2.readFloat p.offset).map fun v => number v.total
    | .double => (o.2.readDouble p.offset).map fun v => number v.total
    | _ => read toLowercase key o

def value (key : SortKey) (o : QueryObject) : SortValue := (key.read toLowercase o).getD ⊥

def compared (key : SortKey) (o : QueryObject) : SortValue :=
  (key.readCompared toLowercase o).getD ⊥

end SortKey

/-! ## Floats -/

section
variable {s t : Bool} {m n : Nat}

/-- The total order tells numbers of different value apart as their values do. -/
theorem signed_le_of_total_lt
    (less : (if s then -(m : Int) - 1 else m) < if t then -(n : Int) - 1 else n) :
    (if s then -(m : Int) else m) ≤ if t then -(n : Int) else n := by
  cases s <;> cases t <;> simp only [Bool.false_eq_true, ↓reduceIte] at less ⊢ <;> omega

theorem signed_eq_of_total_eq
    (eq : (if s then -(m : Int) - 1 else m) = if t then -(n : Int) - 1 else n) : s = t ∧ m = n := by
  cases s <;> cases t <;>
    simp only [Bool.false_eq_true, ↓reduceIte, true_and, reduceCtorEq, false_and] at eq ⊢ <;> omega

end

namespace SortValue

theorem number_lt {a b : Int} : number a < number b ↔ a < b := by
  rw [number, number, WithBot.coe_lt_coe, Prod.Lex.toLex_lt_toLex]
  exact or_iff_left fun h => lt_irrefl _ h.2

theorem number_injective {a b : Int} : number a = number b ↔ a = b := by
  constructor
  · intro eq
    exact congrArg Prod.fst (congrArg ofLex (WithBot.coe_injective eq))
  · exact congrArg number

theorem number_ne_bot (n : Int) : number n ≠ ⊥ := WithBot.coe_ne_bot

/-- The value of a float, where a NaN is null. -/
def real (nan : Bool) (rank : Int) : SortValue := if nan then ⊥ else number rank

/-- What is told apart by the total order is ordered by it, or of the same value, or a null above a
number. -/
theorem real_of_lt {nan nan' : Bool} {rank rank' : Int}
    (le : nan = false → nan' = false → rank ≤ rank') :
    real nan rank < real nan' rank' ∨ real nan rank = real nan' rank' ∨
      (real nan rank ≠ ⊥ ∧ real nan' rank' = ⊥) := by
  unfold real
  cases nan with
  | true =>
    cases nan' with
    | true => exact Or.inr (Or.inl rfl)
    | false => exact Or.inl (WithBot.bot_lt_coe _)
  | false =>
    cases nan' with
    | true => exact Or.inr (Or.inr ⟨number_ne_bot _, rfl⟩)
    | false =>
      rcases lt_or_eq_of_le (le rfl rfl) with less | same
      · exact Or.inl (number_lt.mpr less)
      · exact Or.inr (Or.inl (congrArg number same))

end SortValue

/-! ## Comparing objects -/

/-- The decisions of two orders agree if they are of elements in the same order. -/
theorem cmp_eq_cmp {α β : Type} [LinearOrder α] [LinearOrder β] {x y : α} {x' y' : β}
    (less : x < y ↔ x' < y') (more : y < x ↔ y' < x') : cmp x y = cmp x' y' := by
  unfold cmp cmpUsing
  rw [if_congr less rfl (if_congr more rfl rfl)]

theorem cmp_number (a b : Int) : cmp (SortValue.number a) (SortValue.number b) = cmp a b :=
  cmp_eq_cmp SortValue.number_lt SortValue.number_lt

theorem cmp_text (s t : List Char) : cmp (SortValue.text s) (SortValue.text t) =
    @cmp _ _ LinearOrder.toDecidableLT s t := by
  have lt (s t : List Char) : SortValue.text s < SortValue.text t ↔ s < t := by
    rw [SortValue.text, SortValue.text, WithBot.coe_lt_coe, Prod.Lex.toLex_lt_toLex]
    exact ⟨fun h => h.elim (fun less => absurd less (lt_irrefl 0)) And.right,
      fun h => Or.inr ⟨rfl, h⟩⟩
  exact cmp_eq_cmp (lt s t) (lt t s)

/-- The least integer as null is the least value. -/
theorem cmp_null {α : Type} [DecidableEq α] {null : α} {toInt : α → Int}
    (least : ∀ v, v ≠ null → toInt null < toInt v) (v w : α) :
    cmp (if v = null then ⊥ else SortValue.number (toInt v))
        (if w = null then ⊥ else SortValue.number (toInt w)) = cmp (toInt v) (toInt w) := by
  have lt (v w : α) : (if v = null then ⊥ else SortValue.number (toInt v)) <
      (if w = null then ⊥ else SortValue.number (toInt w)) ↔ toInt v < toInt w := by
    by_cases nullV : v = null
    · by_cases nullW : w = null
      · rw [if_pos nullV, if_pos nullW, nullV, nullW]
        exact iff_of_false (lt_irrefl _) (lt_irrefl _)
      · rw [if_pos nullV, if_neg nullW, nullV]
        exact iff_of_true (WithBot.bot_lt_coe _) (least w nullW)
    · by_cases nullW : w = null
      · rw [if_neg nullV, if_pos nullW, nullW]
        exact iff_of_false not_lt_bot (lt_asymm (least v nullV))
      · rw [if_neg nullV, if_neg nullW]
        exact SortValue.number_lt
  exact cmp_eq_cmp (lt v w) (lt w v)

section
variable {toLowercase : List Char → List Char}

/-- A comparison of what is read of two objects. -/
theorem compare_read {α : Type} (read : IsarDeserializer → Option α) {f : α → SortValue}
    {compare : α → α → Ordering} {a b : IsarDeserializer} {x y : SortValue}
    (same : ∀ v w, compare v w = cmp (f v) (f w))
    (readA : (read a).map f = some x) (readB : (read b).map f = some y) :
    (do
      let first ← read a
      let second ← read b
      pure (compare first second) : Option Ordering) = some (cmp x y) := by
  obtain ⟨v, eqA, rfl⟩ := Option.map_eq_some_iff.mp readA
  obtain ⟨w, eqB, rfl⟩ := Option.map_eq_some_iff.mp readB
  rw [eqA, eqB]
  exact congrArg some (same v w)

/-- The compared bytes are those of the characters that are sorted by. -/
theorem comparedBytes_of_readStr {object : IsarDeserializer} {offset : Nat} {caseSensitive : Bool}
    {v : Option (List Char)} (read : object.readStr offset = some v) :
    (do
      match ← object.readString offset with
      | some bytes => (comparedBytes toLowercase bytes caseSensitive).map some
      | none => pure none : Option (Option Bytes)) =
      some (v.map fun s => Utf8.encode (if caseSensitive then s else toLowercase s)) := by
  rw [IsarDeserializer.readStr] at read
  obtain ⟨found, stored, read⟩ := Option.bind_eq_some_iff.mp read
  rw [stored]
  cases found with
  | none =>
    cases Option.some.inj read
    rfl
  | some bytes =>
    obtain ⟨s, decodes, eq⟩ := Option.map_eq_some_iff.mp read
    subst eq
    show (comparedBytes toLowercase bytes caseSensitive).map some = _
    cases caseSensitive with
    | false =>
      rw [comparedBytes, if_neg Bool.false_ne_true, decodes]
      rfl
    | true =>
      rw [comparedBytes, if_pos rfl, ← Utf8.encode_of_decode decodes]
      rfl

theorem optionCmp_encode (v w : Option (List Char)) :
    optionCmp cmp (v.map Utf8.encode) (w.map Utf8.encode) =
      cmp (v.elim ⊥ SortValue.text) (w.elim ⊥ SortValue.text) := by
  have above (s : List Char) : (⊥ : SortValue) < SortValue.text s := WithBot.bot_lt_coe _
  cases v with
  | none =>
    cases w with
    | none => exact (cmp_self_eq_eq _).symm
    | some t => exact ((cmp_eq_lt_iff _ _).mpr (above t)).symm
  | some s =>
    cases w with
    | none => exact ((cmp_eq_gt_iff _ _).mpr (above s)).symm
    | some t => exact (cmp_encode s t).trans (cmp_text s t).symm

theorem cmp_bool (v w : Option Bool) : optionCmp cmp v w =
    cmp (v.elim ⊥ fun value => SortValue.number (if value then 1 else 0))
      (w.elim ⊥ fun value => SortValue.number (if value then 1 else 0)) := by
  have above (n : Int) : (⊥ : SortValue) < SortValue.number n := WithBot.bot_lt_coe _
  cases v with
  | none =>
    cases w with
    | none => exact (cmp_self_eq_eq _).symm
    | some t => exact ((cmp_eq_lt_iff _ _).mpr (above _)).symm
  | some s =>
    cases w with
    | none => exact ((cmp_eq_gt_iff _ _).mpr (above _)).symm
    | some t =>
      refine Eq.trans ?_ (cmp_number _ _).symm
      cases s <;> cases t <;> decide

theorem compareProperty_eq {p : NativeProperty} {order : SortOrder} {caseSensitive : Bool}
    {a b : QueryObject} {x y : SortValue}
    (readA : SortKey.readCompared toLowercase (some p, order, caseSensitive) a = some x)
    (readB : SortKey.readCompared toLowercase (some p, order, caseSensitive) b = some y) :
    compareProperty toLowercase a.2 b.2 p caseSensitive = some (cmp x y) := by
  unfold SortKey.readCompared SortKey.read at readA readB
  unfold compareProperty
  cases type : p.dataType
  all_goals simp only [type] at readA readB ⊢
  case bool => exact compare_read (·.readBool p.offset) cmp_bool readA readB
  case byte =>
    refine compare_read (·.readByte p.offset) (fun v w => ?_) readA readB
    rw [cmp_number, cmp_intCast]
    exact cmp_eq_cmp UInt8.lt_iff_toNat_lt UInt8.lt_iff_toNat_lt
  case int =>
    refine compare_read (·.readInt p.offset) (fun v w => (cmp_null (fun v other => ?_) v w).symm)
      readA readB
    have bound := v.le_toInt
    have differ : v.toInt ≠ nullInt.toInt := fun same => other (Int32.toInt_inj.mp same)
    have null : nullInt.toInt = -2 ^ 31 := by decide
    omega
  case float =>
    exact compare_read (·.readFloat p.offset) (fun v w => (cmp_number _ _).symm) readA readB
  case long =>
    refine compare_read (·.readLong p.offset) (fun v w => (cmp_null (fun v other => ?_) v w).symm)
      readA readB
    have bound := v.le_toInt
    have differ : v.toInt ≠ nullLong.toInt := fun same => other (Int64.toInt_inj.mp same)
    have null : nullLong.toInt = -2 ^ 63 := by decide
    omega
  case double =>
    exact compare_read (·.readDouble p.offset) (fun v w => (cmp_number _ _).symm) readA readB
  case string =>
    obtain ⟨v, strA, rfl⟩ := Option.map_eq_some_iff.mp readA
    obtain ⟨w, strB, rfl⟩ := Option.map_eq_some_iff.mp readB
    have both {x y : Option (Option Bytes)} {v w : Option Bytes} (readX : x = some v)
        (readY : y = some w) : (do
          let first ← x
          let second ← y
          pure (optionCmp cmp first second) : Option Ordering) = some (optionCmp cmp v w) := by
      rw [readX, readY]
      rfl
    refine (both (comparedBytes_of_readStr strA) (comparedBytes_of_readStr strB)).trans ?_
    have order := optionCmp_encode (v.map fun s => if caseSensitive then s else toLowercase s)
      (w.map fun s => if caseSensitive then s else toLowercase s)
    rw [Option.map_map, Option.map_map] at order
    refine congrArg some (order.trans ?_)
    cases v <;> cases w <;> rfl
  all_goals
    cases readA
    cases readB
    exact congrArg some (cmp_self_eq_eq _).symm

/-! ## What the order of the bits keeps -/

namespace SortKey

theorem isSome_readCompared {key : SortKey} {o : QueryObject}
    (reads : (key.read toLowercase o).isSome) :
    key.readCompared toLowercase o = some (key.compared toLowercase o) := by
  have some_ : (key.readCompared toLowercase o).isSome := by
    unfold readCompared
    unfold read at reads ⊢
    split
    · rfl
    · rename_i p property
      simp only [property] at reads ⊢
      cases type : p.dataType <;> simp only [type, Option.isSome_map] at reads ⊢ <;> exact reads
  obtain ⟨v, eq⟩ := Option.isSome_iff_exists.mp some_
  rw [compared, eq]
  rfl

theorem compared_eq_value {key : SortKey} (notReal : ¬ key.IsReal) (o : QueryObject) :
    key.compared toLowercase o = key.value toLowercase o := by
  unfold compared value
  congr 1
  unfold readCompared
  split
  · rfl
  · rename_i p property
    split
    · rename_i type
      exact absurd ⟨p, property, Or.inl type⟩ notReal
    · rename_i type
      exact absurd ⟨p, property, Or.inr type⟩ notReal
    · rfl

/-- What is compared of a float has its value, and orders numbers as they are. -/
theorem real_cases {key : SortKey} (real : key.IsReal) {a b : QueryObject}
    (readsA : (key.read toLowercase a).isSome) (readsB : (key.read toLowercase b).isSome) :
    (key.compared toLowercase a = key.compared toLowercase b →
      key.value toLowercase a = key.value toLowercase b) ∧
    (key.compared toLowercase a < key.compared toLowercase b →
      key.value toLowercase a < key.value toLowercase b ∨
        key.value toLowercase a = key.value toLowercase b ∨
        (key.value toLowercase a ≠ ⊥ ∧ key.value toLowercase b = ⊥)) := by
  obtain ⟨p, property, type⟩ := real
  unfold compared value
  unfold read at readsA readsB
  unfold readCompared read
  rcases type with type | type
  all_goals
    simp only [property, type, Option.isSome_map] at readsA readsB ⊢
    obtain ⟨v, eqA⟩ := Option.isSome_iff_exists.mp readsA
    obtain ⟨w, eqB⟩ := Option.isSome_iff_exists.mp readsB
    simp only [eqA, eqB, Option.map_some, Option.getD_some]
  · refine ⟨fun same => ?_, fun less => SortValue.real_of_lt fun _ _ =>
      signed_le_of_total_lt (SortValue.number_lt.mp less)⟩
    obtain ⟨sign, magnitude⟩ := signed_eq_of_total_eq (SortValue.number_injective.mp same)
    have nan : v.isNan = w.isNan := by rw [F32.isNan, F32.isNan, magnitude]
    have rank : v.rank = w.rank := by rw [F32.rank, F32.rank, sign, magnitude]
    rw [nan, rank]
  · refine ⟨fun same => ?_, fun less => SortValue.real_of_lt fun _ _ =>
      signed_le_of_total_lt (SortValue.number_lt.mp less)⟩
    obtain ⟨sign, magnitude⟩ := signed_eq_of_total_eq (SortValue.number_injective.mp same)
    have nan : v.isNan = w.isNan := by rw [F64.isNan, F64.isNan, magnitude]
    have rank : v.rank = w.rank := by rw [F64.rank, F64.rank, sign, magnitude]
    rw [nan, rank]

theorem value_of_compared_eq {key : SortKey} {a b : QueryObject}
    (readsA : (key.read toLowercase a).isSome) (readsB : (key.read toLowercase b).isSome)
    (same : key.compared toLowercase a = key.compared toLowercase b) :
    key.value toLowercase a = key.value toLowercase b := by
  by_cases real : key.IsReal
  · exact (real_cases real readsA readsB).1 same
  · rw [← compared_eq_value real, ← compared_eq_value real]
    exact same

theorem value_of_compared_lt {key : SortKey} {a b : QueryObject}
    (readsA : (key.read toLowercase a).isSome) (readsB : (key.read toLowercase b).isSome)
    (less : key.compared toLowercase a < key.compared toLowercase b) :
    key.value toLowercase a < key.value toLowercase b ∨ key.IsReal ∧
      (key.value toLowercase a = key.value toLowercase b ∨
        (key.value toLowercase a ≠ ⊥ ∧ key.value toLowercase b = ⊥)) := by
  by_cases real : key.IsReal
  · rcases (real_cases real readsA readsB).2 less with less | other
    · exact Or.inl less
    · exact Or.inr ⟨real, other⟩
  · rw [← compared_eq_value real, ← compared_eq_value real]
    exact Or.inl less

end SortKey

theorem compareObjects_eq {sort : List SortKey} {a b : QueryObject}
    (readsA : ∀ key ∈ sort, (key.read toLowercase a).isSome)
    (readsB : ∀ key ∈ sort, (key.read toLowercase b).isSome) :
    compareObjects toLowercase a b sort =
      some (orderBy (SortKey.compared toLowercase) SortKey.descends sort a b) := by
  induction sort with
  | nil => rfl
  | cons key sort ih =>
    have rest := ih (fun k mem => readsA k (List.mem_cons_of_mem key mem))
      fun k mem => readsB k (List.mem_cons_of_mem key mem)
    have eqA := SortKey.isSome_readCompared (readsA key List.mem_cons_self)
    have eqB := SortKey.isSome_readCompared (readsB key List.mem_cons_self)
    obtain ⟨property, order, caseSensitive⟩ := key
    have decided {ord : Ordering}
        (eq : ord = cmp (SortKey.compared toLowercase (property, order, caseSensitive) a)
          (SortKey.compared toLowercase (property, order, caseSensitive) b)) :
        (if ord ≠ .eq then pure (if order = .asc then ord else ord.swap)
          else compareObjects toLowercase a b sort) =
        some (orderBy (SortKey.compared toLowercase) SortKey.descends
          ((property, order, caseSensitive) :: sort) a b) := by
      subst eq
      rw [rest, orderBy_cons]
      unfold keyOrder SortKey.descends
      generalize SortKey.compared toLowercase (property, order, caseSensitive) a = x
      generalize SortKey.compared toLowercase (property, order, caseSensitive) b = y
      have swap : cmp y x = (cmp x y).swap := (cmp_swap x y).symm
      rw [swap]
      cases order <;> cases cmp x y <;> rfl
    unfold compareObjects
    cases property with
    | some p => exact (congrArg (Option.bind · _) (compareProperty_eq eqA eqB)).trans (decided rfl)
    | none => exact decided (cmp_number _ _).symm

/-! ## Misplaced objects -/

/-- The sort has the first object in front of the second one, against the values of the keys. The
first key that tells them apart is a float, which is null for one of them only, stored above all
numbers, or has the same value for both (two zeros, two NaNs), while the other keys want them the
other way around. -/
def Misplaced (toLowercase : List Char → List Char) (sort : List SortKey) (a b : QueryObject) :
    Prop :=
  ∃ before key after, sort = before ++ key :: after ∧
    (∀ k ∈ before, SortKey.compared toLowercase k a = SortKey.compared toLowercase k b) ∧
    key.IsReal ∧ keyOrder (SortKey.compared toLowercase) SortKey.descends key a b = .lt ∧
    ((if key.descends then key.value toLowercase a = ⊥ ∧ key.value toLowercase b ≠ ⊥
        else key.value toLowercase a ≠ ⊥ ∧ key.value toLowercase b = ⊥) ∨
      key.value toLowercase a = key.value toLowercase b ∧
        ¬ InOrder (SortKey.value toLowercase) SortKey.descends after a b)

/-- Only floats are told apart against their values, or in spite of them. -/
theorem isReal_of_compared_lt {key : SortKey} {a b : QueryObject}
    (readsA : (key.read toLowercase a).isSome) (readsB : (key.read toLowercase b).isSome)
    (less : key.compared toLowercase a < key.compared toLowercase b)
    (le : key.value toLowercase b ≤ key.value toLowercase a) :
    key.IsReal ∧ (key.value toLowercase b < key.value toLowercase a ↔
      key.value toLowercase a ≠ ⊥ ∧ key.value toLowercase b = ⊥) := by
  rcases SortKey.value_of_compared_lt readsA readsB less with less | ⟨real, same | null⟩
  · exact absurd less (not_lt.mpr le)
  · refine ⟨real, iff_of_false (same ▸ lt_irrefl _) ?_⟩
    intro ⟨some_, none_⟩
    exact some_ (same.trans none_)
  · refine ⟨real, iff_of_true ?_ null⟩
    rw [null.2]
    exact bot_lt_iff_ne_bot.mpr null.1

theorem misplaced_iff {sort : List SortKey} {a b : QueryObject}
    (readsA : ∀ key ∈ sort, (key.read toLowercase a).isSome)
    (readsB : ∀ key ∈ sort, (key.read toLowercase b).isSome) :
    orderBy (SortKey.compared toLowercase) SortKey.descends sort a b = .lt ∧
        orderBy (SortKey.value toLowercase) SortKey.descends sort a b = .gt ↔
      Misplaced toLowercase sort a b := by
  rw [reversed_iff fun key mem same =>
    SortKey.value_of_compared_eq (readsA key mem) (readsB key mem) same]
  unfold Misplaced
  refine exists_congr fun before => exists_congr fun key => exists_congr fun after =>
    and_congr_right fun eq => and_congr_right fun _ => ?_
  have mem : key ∈ sort := by
    rw [eq]
    exact List.mem_append_right before List.mem_cons_self
  have readA := readsA key mem
  have readB := readsB key mem
  constructor
  · intro ⟨less, against⟩
    have decided := keyOrder_eq_lt.mp less
    rw [keyOrder_eq_gt] at against
    split at decided
    · rename_i down
      rw [if_pos down] at against
      rw [if_pos down]
      have real := isReal_of_compared_lt readB readA decided
        (against.elim le_of_lt fun same => same.1.le)
      exact ⟨real.1, less, against.imp_left fun greater => (real.2.mp greater).symm⟩
    · rename_i up
      rw [if_neg up] at against
      rw [if_neg up]
      have real := isReal_of_compared_lt readA readB decided
        (against.elim le_of_lt fun same => same.1.ge)
      exact ⟨real.1, less, against.imp_left real.2.mp⟩
  · intro ⟨real, less, against⟩
    refine ⟨less, against.imp_left fun above => ?_⟩
    rw [keyOrder_eq_gt]
    split at above
    · rename_i down
      rw [if_pos down, above.1]
      exact bot_lt_iff_ne_bot.mpr above.2
    · rename_i up
      rw [if_neg up, above.2]
      exact bot_lt_iff_ne_bot.mpr above.1

/-! ## Sorted results -/

/-- The object satisfies the filter. -/
def NativeFilter.accepts (toLowercase : List Char → List Char) (filter : NativeFilter)
    (o : QueryObject) : Bool :=
  filter.evaluate toLowercase o.1 o.2 = some true

theorem matching_eq_filter {filter : NativeFilter} {objects : List QueryObject}
    (evaluates : ∀ o ∈ objects, (filter.evaluate toLowercase o.1 o.2).isSome) :
    filter.matching toLowercase objects = some (objects.filter (filter.accepts toLowercase)) := by
  induction objects with
  | nil => rfl
  | cons o objects ih =>
    obtain ⟨id, object⟩ := o
    obtain ⟨isMatch, eq⟩ := Option.isSome_iff_exists.mp (evaluates (id, object) List.mem_cons_self)
    have eq : filter.evaluate toLowercase id object = some isMatch := eq
    have accepts : filter.accepts toLowercase (id, object) = isMatch := by
      show decide (filter.evaluate toLowercase id object = some true) = isMatch
      rw [eq]
      cases isMatch <;> rfl
    rw [NativeFilter.matching, eq, ih fun o mem => evaluates o (List.mem_cons_of_mem _ mem),
      List.filter_cons, accepts]
    cases isMatch <;> rfl

variable {xxh3_64_with_seed : Bytes → UInt64 → UInt64}
  {sortUnstableBy : (QueryObject → QueryObject → Ordering) → List QueryObject → List QueryObject}

/-- A sorted query has this result: the matching objects with neighbours in order, and every slice
of them for an offset and a limit. -/
structure NativeQuery.SortedResult (toLowercase : List Char → List Char)
    (xxh3_64_with_seed : Bytes → UInt64 → UInt64)
    (sortUnstableBy : (QueryObject → QueryObject → Ordering) → List QueryObject →
      List QueryObject) (query : NativeQuery) (txn : NativeTxn) (c : NativeCollection)
    (matched result : List QueryObject) : Prop where
  full : query.results toLowercase xxh3_64_with_seed sortUnstableBy txn c false 0 0xffffffff =
    some result
  perm : result.Perm matched
  ordered : result.IsChain (InOrder (SortKey.value toLowercase) SortKey.descends query.sort)
  pages : ∀ offset limit : Option UInt32,
    query.results toLowercase xxh3_64_with_seed sortUnstableBy txn c false (offset.getD 0)
      (limit.getD 0xffffffff) = some (page offset limit result)

/-- The result of a sorted query is right exactly if the missing limit does not cut it off, and no
two matching objects are misplaced. -/
theorem sorted_query_exact (lawful : SortsUnstably sortUnstableBy) {query : NativeQuery}
    {txn : NativeTxn} {c : NativeCollection} {objects : List QueryObject}
    (stored : txn.objects c = some objects)
    (evaluates : ∀ o ∈ objects, (query.filter.evaluate toLowercase o.1 o.2).isSome)
    (sorts : query.sort ≠ []) (all : query.distinct = [])
    (reads : ∀ o ∈ objects, ∀ key ∈ query.sort, (SortKey.read toLowercase key o).isSome) :
    (∃ result, query.SortedResult toLowercase xxh3_64_with_seed sortUnstableBy txn c
      (objects.filter (query.filter.accepts toLowercase)) result) ↔
    (objects.filter (query.filter.accepts toLowercase)).length ≤ 0xffffffff ∧
      ∀ a ∈ objects.filter (query.filter.accepts toLowercase),
        ∀ b ∈ objects.filter (query.filter.accepts toLowercase),
          ¬ Misplaced toLowercase query.sort a b := by
  have filtered := matching_eq_filter evaluates
  have reads' : ∀ o ∈ objects.filter (query.filter.accepts toLowercase), ∀ key ∈ query.sort,
      (SortKey.read toLowercase key o).isSome := fun o mem => reads o (List.mem_of_mem_filter mem)
  generalize objects.filter (query.filter.accepts toLowercase) = matched at filtered reads' ⊢
  have trans := @transCmp_orderBy _ _ _ _ (SortKey.compared toLowercase) SortKey.descends query.sort
  have trans' := @transCmp_orderBy _ _ _ _ (SortKey.value toLowercase) SortKey.descends query.sort
  obtain ⟨sorted, found, perm, ordered⟩ := sortObjects_perm lawful trans fun a memA b memB =>
    compareObjects_eq (reads' a memA) (reads' b memB)
  have results (offset limit : UInt32) :
      query.results toLowercase xxh3_64_with_seed sortUnstableBy txn c false offset limit =
        some ((sorted.drop offset.toNat).take limit.toNat) := by
    have sorts' : (!query.sort.isEmpty && !false) = true := by simp [sorts]
    unfold NativeQuery.results
    rw [stored, Option.bind_eq_bind, Option.bind_some, filtered, Option.bind_some, if_pos sorts',
      found, Option.bind_some, all]
    rfl
  have chain : sorted.IsChain (InOrder (SortKey.value toLowercase) SortKey.descends query.sort) ↔
      ∀ a ∈ matched, ∀ b ∈ matched, ¬ Misplaced toLowercase query.sort a b := by
    have order : InOrder (SortKey.value toLowercase) SortKey.descends query.sort =
        fun a b => (orderBy (SortKey.value toLowercase) SortKey.descends query.sort a b).isLE =
          true := by
      funext a b
      exact propext inOrder_iff
    rw [order, isChain_iff trans trans' perm ordered]
    · refine forall₂_congr fun a memA => forall₂_congr fun b memB => ?_
      rw [← misplaced_iff (reads' a memA) (reads' b memB), not_and]
    · intro a memA b memB same
      rw [orderBy_eq_eq] at same ⊢
      intro key mem
      exact SortKey.value_of_compared_eq (reads' a memA key mem) (reads' b memB key mem)
        (same key mem)
  constructor
  · intro ⟨result, right⟩
    have cut : result = (sorted.drop (0 : UInt32).toNat).take (0xffffffff : UInt32).toNat :=
      Option.some.inj (right.full.symm.trans (results 0 0xffffffff))
    have whole : result.length = sorted.length := right.perm.length_eq.trans perm.length_eq.symm
    have short : sorted.length ≤ 0xffffffff := by
      rw [← whole, cut]
      exact List.length_take_le _ _
    have same : result = sorted := cut.trans (List.take_of_length_le short)
    refine ⟨perm.length_eq.symm.trans_le short, chain.mp ?_⟩
    rw [← same]
    exact right.ordered
  · intro ⟨short, placed⟩
    have short : sorted.length ≤ 0xffffffff := perm.length_eq.trans_le short
    have pages (offset limit : Option UInt32) :=
      (results (offset.getD 0) (limit.getD 0xffffffff)).trans
        (congrArg some (page_eq short offset limit))
    exact ⟨sorted, {
      full := pages none none
      perm
      ordered := chain.mpr placed
      pages }⟩

end

/-! ## Objects with a double -/

/-- A collection of objects with one double, with an object for each of the doubles. -/
def weights : NativeCollection :=
  .new 0 "weights" (some "id") [("grams", ⟨.double, 0, none⟩)] [] (some "weights")

def storedWeights (doubles : List F64) : NativeTxn :=
  (doubles.zipIdx 1).foldl (fun txn (double, id) => txn.putObject "weights" (Int64.ofNat id)
    ([8, 0, 0] ++ f64Le double)) .empty

/-- All objects, the lightest one first. -/
def byWeight : NativeQuery :=
  { filter := .stat true, sort := [(some ⟨.double, 0, none⟩, .asc, true)], distinct := [] }

/-- The object of a weight. -/
def weight (id : Int64) (double : F64) : QueryObject := (id, ⟨f64Le double, 8⟩)

theorem sorted_query_on_weights :
    (∃ result, byWeight.SortedResult id (fun _ seed => seed) insertionSortBy
      (storedWeights [.ofInt 3, .ofInt 2]) weights
      ([weight 1 (.ofInt 3), weight 2 (.ofInt 2)].filter (byWeight.filter.accepts id)) result) ↔
    ([weight 1 (.ofInt 3), weight 2 (.ofInt 2)].filter (byWeight.filter.accepts id)).length ≤
        0xffffffff ∧
      ∀ a ∈ [weight 1 (.ofInt 3), weight 2 (.ofInt 2)].filter (byWeight.filter.accepts id),
        ∀ b ∈ [weight 1 (.ofInt 3), weight 2 (.ofInt 2)].filter (byWeight.filter.accepts id),
          ¬ Misplaced id byWeight.sort a b := by
  have stored : (storedWeights [.ofInt 3, .ofInt 2]).objects weights =
      some [weight 1 (.ofInt 3), weight 2 (.ofInt 2)] := by decide +kernel
  exact sorted_query_exact sortsUnstably_insertionSortBy stored (by decide +kernel) (by decide)
    rfl (by decide +kernel)

/-- Null is sorted behind a number. -/
theorem null_sorted_last :
    ¬ ∃ result, byWeight.SortedResult id (fun _ seed => seed) insertionSortBy
      (storedWeights [.nan, .ofInt 2]) weights
      ([weight 1 .nan, weight 2 (.ofInt 2)].filter (byWeight.filter.accepts id)) result := by
  intro ⟨result, right⟩
  have found : byWeight.results id (fun _ seed => seed) insertionSortBy
      (storedWeights [.nan, .ofInt 2]) weights false 0 0xffffffff =
        some [weight 2 (.ofInt 2), weight 1 .nan] := by decide +kernel
  have ordered := right.ordered
  rw [Option.some.inj (right.full.symm.trans found)] at ordered
  have neighbours := inOrder_iff.mp (List.isChain_pair.mp ordered)
  revert neighbours
  decide +kernel

end IsarPlus.Native
