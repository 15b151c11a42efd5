import IsarPlus.Lib.Lexicographic
import IsarPlus.Native.CursorIterator

/-!
# What range cursors yield

`compare_keys` is the order of the database. A range cursor is set to the first entry of its range
by different moves, depending on the direction and on what is stored around the end of the range;
from there it makes one move after the other until an entry is out of the range.
-/

namespace IsarPlus.Native
open ByteBuffer SortedCursor Iteration

/-! ## Keys -/

section
variable {integerKey : Bool} {a b c : Bytes}

theorem keyLt_irrefl (a : Bytes) : ¬ keyLt integerKey a a := by
  cases integerKey with
  | true => exact lt_irrefl (leNat a)
  | false => exact lt_irrefl a

theorem keyLt_trans (lt : keyLt integerKey a b) (lt' : keyLt integerKey b c) :
    keyLt integerKey a c := by
  cases integerKey with
  | true => exact Nat.lt_trans lt lt'
  | false => exact List.lt_trans lt lt'

theorem keyLt_of_le_of_lt (le : ¬ keyLt integerKey b a) (lt : keyLt integerKey b c) :
    keyLt integerKey a c := by
  cases integerKey with
  | true => exact lt_of_le_of_lt (not_lt.mp (show ¬ leNat b < leNat a from le)) lt
  | false => exact lt_of_le_of_lt (not_lt.mp (show ¬ b < a from le)) lt

theorem keyLt_of_lt_of_le (lt : keyLt integerKey a b) (le : ¬ keyLt integerKey c b) :
    keyLt integerKey a c := by
  cases integerKey with
  | true => exact lt_of_lt_of_le lt (not_lt.mp (show ¬ leNat c < leNat b from le))
  | false => exact lt_of_lt_of_le lt (not_lt.mp (show ¬ c < b from le))

/-- Behind heads of the shorter length the longer list is the greater one. -/
theorem drop_lt_drop_iff (a b : Bytes) :
    a.drop (min a.length b.length) < b.drop (min a.length b.length) ↔ a.length < b.length := by
  rcases Nat.lt_or_ge a.length b.length with shorter | longer
  · rw [min_eq_left shorter.le, List.drop_length, iff_true_right shorter]
    apply lt_of_le_of_ne (Lexicographic.nil_le _)
    intro empty
    exact absurd (List.drop_eq_nil_iff.mp empty.symm) (by omega)
  · rw [min_eq_right longer, @List.drop_length _ b, iff_false_right (by omega)]
    exact List.not_lt_nil _

/-- The heads of one length decide the order of two lists, or else their lengths do. -/
theorem lt_iff_heads (a b : Bytes) : a < b ↔
    a.take (min a.length b.length) < b.take (min a.length b.length) ∨
      a.take (min a.length b.length) = b.take (min a.length b.length) ∧ a.length < b.length := by
  have lengths : (a.take (min a.length b.length)).length =
      (b.take (min a.length b.length)).length := by
    rw [List.length_take, List.length_take]
    omega
  have split := @Lexicographic.append_lt_append_iff_of_length _ _ _ _
    (a.drop (min a.length b.length)) (b.drop (min a.length b.length)) lengths
  rw [List.take_append_drop, List.take_append_drop, drop_lt_drop_iff] at split
  exact split

theorem cmp_decides {α : Type} [LinearOrder α] (i : DecidableLT α) (a b : α) :
    (@cmp α _ i a b = .eq ↔ a = b) ∧ (@cmp α _ i a b = .lt ↔ a < b) ∧
      (@cmp α _ i a b = .gt ↔ b < a) := by
  rw [Subsingleton.elim i LinearOrder.toDecidableLT]
  exact ⟨cmp_eq_eq_iff a b, cmp_eq_lt_iff a b, cmp_eq_gt_iff a b⟩

theorem headOrder_spec (i : DecidableLT Bytes) (j : DecidableLT Nat) (a b : Bytes)
    {order : Ordering}
    (eq : order = @cmp _ _ i (a.take (min a.length b.length)) (b.take (min a.length b.length))) :
    ((if order = .eq then @cmp _ _ j a.length b.length else order) = .lt ↔ a < b) ∧
    ((if order = .eq then @cmp _ _ j a.length b.length else order) = .gt ↔ b < a) := by
  obtain ⟨same, less, greater⟩ :=
    cmp_decides i (a.take (min a.length b.length)) (b.take (min a.length b.length))
  obtain ⟨-, shorter, longer⟩ := cmp_decides j a.length b.length
  rw [← eq] at same less greater
  rw [lt_iff_heads a b, lt_iff_heads b a, min_comm b.length]
  by_cases equal : order = .eq
  · rw [if_pos equal, shorter, longer, same.mp equal]
    simp
  · have apart : ¬ a.take (min a.length b.length) = b.take (min a.length b.length) :=
      fun h => equal (same.mpr h)
    rw [if_neg equal, less, greater]
    exact ⟨by simp [apart], by simp [Ne.symm apart]⟩

/-- On keys that the database takes, `compare_keys` is the order of the database. -/
theorem compareKeys_eq (eightA : integerKey = true → a.length = 8)
    (eightB : integerKey = true → b.length = 8) :
    ∃ order, compareKeys integerKey a b = some order ∧ (order = .lt ↔ keyLt integerKey a b) ∧
      (order = .gt ↔ keyLt integerKey b a) := by
  cases integerKey with
  | true =>
    have lengthA := eightA rfl
    have lengthB := eightB rfl
    have read : compareKeys true a b = some (cmp (leNat a) (leNat b)) := by
      rw [compareKeys, if_pos rfl, if_pos ⟨lengthA.ge, lengthB.ge⟩,
        List.take_of_length_le lengthA.le, List.take_of_length_le lengthB.le]
    exact ⟨_, read, (cmp_decides _ (leNat a) (leNat b)).2⟩
  | false => exact ⟨_, rfl, headOrder_spec _ _ a b rfl⟩

end

/-! ## Scans -/

namespace KeyValueDb

variable {db : KeyValueDb}

theorem ascending (db : KeyValueDb) :
    db.entries.Pairwise fun a b => keyLt db.integerKey a.1 b.1 ∨ a.1 = b.1 :=
  db.sorted.imp fun below => below.imp_right fun same => same.2.1

/-- Where keys that are not below `key` come first, all that follow are not either. -/
theorem not_keyLt_of_le {a b : KeyVal} {key : Bytes}
    (le : keyLt db.integerKey a.1 b.1 ∨ a.1 = b.1) (above : ¬ keyLt db.integerKey a.1 key) :
    ¬ keyLt db.integerKey b.1 key := by
  intro below
  rcases le with less | same
  · exact above (keyLt_trans less below)
  · exact above (same ▸ below)

theorem keyLt_of_le {a b : KeyVal} {key : Bytes}
    (le : keyLt db.integerKey a.1 b.1 ∨ a.1 = b.1) (above : keyLt db.integerKey key a.1) :
    keyLt db.integerKey key b.1 := by
  rcases le with less | same
  · exact keyLt_trans above less
  · exact same ▸ above

/-- The entries whose keys are below `key`. -/
def below (db : KeyValueDb) (key : Bytes) : List KeyVal :=
  db.entries.filter fun e => decide (keyLt db.integerKey e.1 key)

/-- The entries from `key` on. -/
def atLeast (db : KeyValueDb) (key : Bytes) : List KeyVal :=
  db.entries.filter fun e => !decide (keyLt db.integerKey e.1 key)

/-- The entries up to `key`, the last one first. -/
def downFrom (db : KeyValueDb) (key : Bytes) : List KeyVal :=
  (db.entries.filter fun e => !decide (keyLt db.integerKey key e.1)).reverse

theorem closed_below (db : KeyValueDb) (key : Bytes) : db.entries.Pairwise fun a b =>
    decide (keyLt db.integerKey b.1 key) = true → decide (keyLt db.integerKey a.1 key) = true := by
  apply db.ascending.imp
  intro a b le below
  by_contra above
  exact not_keyLt_of_le le (of_decide_eq_false (Bool.eq_false_iff.mpr above))
    (of_decide_eq_true below)

theorem seek_eq (db : KeyValueDb) (key : Bytes) (p : Position KeyVal) :
    db.move .setRange (some key) p = Position.ahead (db.below key).reverse (db.atLeast key) := by
  have closed := db.closed_below key
  have some_ : (fun e : KeyVal => decide (∃ k ∈ some key, keyLt db.integerKey e.1 k)) =
      fun e => decide (keyLt db.integerKey e.1 key) := by
    funext e
    simp
  show Position.seek (fun e => decide (∃ k ∈ some key, keyLt db.integerKey e.1 k)) db.entries = _
  rw [some_, Position.seek, takeWhile_eq_filter closed, dropWhile_eq_filter closed]
  rfl

theorem below_append_atLeast (db : KeyValueDb) (key : Bytes) :
    db.below key ++ db.atLeast key = db.entries := by
  have closed := db.closed_below key
  rw [below, atLeast, ← takeWhile_eq_filter closed, ← dropWhile_eq_filter closed,
    List.takeWhile_append_dropWhile]

theorem downFrom_eq (db : KeyValueDb) (key : Bytes) : db.downFrom key =
    ((db.atLeast key).filter fun e => !decide (keyLt db.integerKey key e.1)).reverse ++
      (db.below key).reverse := by
  have all : (db.below key).filter (fun e => !decide (keyLt db.integerKey key e.1)) =
      db.below key := by
    apply List.filter_eq_self.mpr
    intro e mem
    have less := of_decide_eq_true (List.mem_filter.mp mem).2
    rw [Bool.not_eq_true', decide_eq_false_iff_not]
    intro greater
    exact keyLt_irrefl key (keyLt_trans greater less)
  rw [downFrom, ← db.below_append_atLeast key, List.filter_append, all, List.reverse_append]

/-- Around an entry that a seek has come to, the keys ascend. -/
theorem ascending_atLeast (db : KeyValueDb) (key : Bytes) :
    (db.atLeast key).Pairwise fun a b => keyLt db.integerKey a.1 b.1 ∨ a.1 = b.1 :=
  db.ascending.filter _

/-- Of the entries behind `e`, those of its key come first. -/
theorem takeWhile_sameKey {e : KeyVal} {right : List KeyVal}
    (sorted : (e :: right).Pairwise fun a b => keyLt db.integerKey a.1 b.1 ∨ a.1 = b.1)
    {key : Bytes} (above : ¬ keyLt db.integerKey e.1 key) (upTo : ¬ keyLt db.integerKey key e.1) :
    right.takeWhile (Position.sameKey Prod.fst e) =
      right.filter fun x => !decide (keyLt db.integerKey key x.1) := by
  obtain ⟨first, rest⟩ := List.pairwise_cons.mp sorted
  have same {x : KeyVal} (mem : x ∈ right) :
      Position.sameKey Prod.fst e x = !decide (keyLt db.integerKey key x.1) := by
    rcases first x mem with less | equal
    · have beyond : keyLt db.integerKey key x.1 := keyLt_of_le_of_lt above less
      have apart : e.1 ≠ x.1 := fun equal => keyLt_irrefl x.1 (equal ▸ less)
      simp [Position.sameKey, beyond, apart]
    · have inside : ¬ keyLt db.integerKey key x.1 := equal ▸ upTo
      simp [Position.sameKey, inside, equal]
  have closed : right.Pairwise fun a b =>
      Position.sameKey Prod.fst e b = true → Position.sameKey Prod.fst e a = true := by
    apply rest.imp_of_mem
    intro a b memA memB le
    rw [same memA, same memB, Bool.not_eq_true', Bool.not_eq_true', decide_eq_false_iff_not,
      decide_eq_false_iff_not]
    intro inside beyond
    exact inside (keyLt_of_le le beyond)
  rw [takeWhile_eq_filter closed]
  exact List.filter_congr fun x mem => same mem

/-- Without duplicates an entry is the last one of its key. -/
theorem takeWhile_sameKey_eq_nil (single : db.duplicates = false) {e : KeyVal}
    {right : List KeyVal} {key : Bytes} (found : db.atLeast key = e :: right) :
    right.takeWhile (Position.sameKey Prod.fst e) = [] := by
  have strict : (e :: right).Pairwise fun a b => keyLt db.integerKey a.1 b.1 := by
    rw [← found]
    apply (db.sorted.filter _).imp
    intro a b below
    exact below.resolve_right fun same => absurd same.1 (by rw [single]; decide)
  cases right with
  | nil => rfl
  | cons x right =>
    have less := (List.pairwise_cons.mp strict).1 x List.mem_cons_self
    have apart : e.1 ≠ x.1 := fun equal => keyLt_irrefl x.1 (equal ▸ less)
    rw [List.takeWhile_cons_of_neg (by simpa [Position.sameKey] using apart)]

/-- Where an entry beyond `key` is found, the entries up to `key` are those before it. -/
theorem back_eq {e : KeyVal} {right : List KeyVal} {key : Bytes}
    (found : db.atLeast key = e :: right) (beyond : keyLt db.integerKey key e.1) : ∃ right',
    (((Position.on (db.below key).reverse e right).lastDup
      (Position.sameKey Prod.fst)).prevNoDup (Position.sameKey Prod.fst)) =
        Position.behind right' (db.downFrom key) := by
  obtain ⟨right', eq⟩ := @Position.prevNoDup_lastDup _ _ _ Prod.fst (db.below key).reverse e right
  refine ⟨right', eq.trans (congrArg _ ?_)⟩
  have sorted := db.ascending_atLeast key
  rw [found] at sorted
  have none : (e :: right).filter (fun x => !decide (keyLt db.integerKey key x.1)) = [] := by
    apply List.filter_eq_nil_iff.mpr
    intro x mem
    rw [Bool.not_eq_true', decide_eq_false_iff_not, not_not]
    rcases List.mem_cons.mp mem with rfl | mem
    · exact beyond
    · exact keyLt_of_le ((List.pairwise_cons.mp sorted).1 x mem) beyond
  rw [downFrom_eq, found, none, List.reverse_nil, List.nil_append]
  cases below : (db.below key).reverse with
  | nil => rfl
  | cons x left =>
    have mem : x ∈ db.below key := List.mem_reverse.mp (below ▸ List.mem_cons_self)
    have less := of_decide_eq_true (List.mem_filter.mp mem).2
    have apart : e.1 ≠ x.1 := fun equal => keyLt_irrefl _ (equal ▸ keyLt_trans less beyond)
    rw [List.dropWhile_cons_of_neg (by simpa [Position.sameKey] using apart)]

/-- Where an entry of `key` is found, the entries up to `key` are those before the next key. -/
theorem stay_eq {e : KeyVal} {right : List KeyVal} {key : Bytes}
    (found : db.atLeast key = e :: right) (upTo : ¬ keyLt db.integerKey key e.1) : ∃ right',
    (Position.on (db.below key).reverse e right).lastDup (Position.sameKey Prod.fst) =
      Position.behind right' (db.downFrom key) := by
  have sorted := db.ascending_atLeast key
  rw [found] at sorted
  have stored : e ∈ db.atLeast key := found ▸ List.mem_cons_self
  have above : ¬ keyLt db.integerKey e.1 key :=
    of_decide_eq_false (Bool.not_eq_true' _ ▸ (List.mem_filter.mp stored).2)
  have inside : (e :: right).filter (fun x => !decide (keyLt db.integerKey key x.1)) =
      e :: right.filter fun x => !decide (keyLt db.integerKey key x.1) :=
    List.filter_cons_of_pos (by simpa using upTo)
  refine ⟨right.dropWhile (Position.sameKey Prod.fst e), ?_⟩
  rw [downFrom_eq, found, inside, List.reverse_cons, List.append_assoc,
    ← takeWhile_sameKey sorted above upTo]
  rfl

end KeyValueDb

namespace CursorIterator

variable {σ : Type} {opGet : CursorOp → Option Bytes → σ → Result (Option KeyVal) × σ}
  {db : KeyValueDb} {At : σ → Position KeyVal → Prop}

theorem moveTo_eq (lawful : db.Lawful opGet At) {op : CursorOp} {key : Option Bytes} {cursor : σ}
    {p : Position KeyVal} (admitted : db.Admits At op key cursor p) :
    ∃ cursor', moveTo opGet op key cursor = .ok ((db.move op key p).entry, cursor') ∧
      At cursor' (db.move op key p) := by
  obtain ⟨cursor', eq, stands'⟩ := lawful.moves op key cursor p admitted
  refine ⟨cursor', ?_, stands'⟩
  rw [moveTo, eq]

/-- What a lookup of a valid key finds, wherever the cursor stands. -/
theorem seek_key (lawful : db.Lawful opGet At) {key : Bytes} (valid : db.validKey key) (cursor : σ) :
    ∃ c, moveTo opGet .setRange (some key) cursor = .ok ((db.atLeast key).head?, c) ∧
      At c (Position.ahead (db.below key).reverse (db.atLeast key)) := by
  have admitted : db.Admits At .setRange (some key) cursor (.before []) := ⟨key, rfl, valid⟩
  obtain ⟨c, moved, stands⟩ := moveTo_eq lawful admitted
  rw [db.seek_eq, Position.entry_ahead] at moved
  rw [db.seek_eq] at stands
  exact ⟨c, moved, stands⟩

/-- The entry is within the end of the range that an iteration goes to. -/
def within (it : CursorIterator σ) (e : KeyVal) : Bool :=
  if it.ascending then !decide (keyLt it.integerKey it.upperKey e.1)
  else !decide (keyLt it.integerKey e.1 it.lowerKey)

/-- The bounds of an iteration are keys of the database. -/
structure Bounded (db : KeyValueDb) (it : CursorIterator σ) : Prop where
  integerKey : it.integerKey = db.integerKey
  lower : db.validKey it.lowerKey
  upper : db.validKey it.upperKey

theorem Bounded.compareKeys_eq {it : CursorIterator σ} (bounded : Bounded db it) {a b : Bytes}
    (validA : db.validKey a) (validB : db.validKey b) :
    ∃ order, compareKeys it.integerKey a b = some order ∧
      (order = .lt ↔ keyLt it.integerKey a b) ∧ (order = .gt ↔ keyLt it.integerKey b a) := by
  have eight {key : Bytes} (valid : db.validKey key) : it.integerKey = true → key.length = 8 := by
    rw [bounded.integerKey]
    exact fun integer => db.eightBytes integer key valid
  exact Native.compareKeys_eq (eight validA) (eight validB)

/-- A cursor that an iteration moves on over the given entries. -/
structure Scanning (db : KeyValueDb) (At : σ → Position KeyVal → Prop) (it : CursorIterator σ)
    (rest : List KeyVal) : Prop extends Bounded db it where
  scans : it.op = .next ∨ it.op = .nextNoDup ∨ it.op = .prev ∨ it.op = .prevNoDup
  stands : ∃ p, At it.cursor p ∧ Yields (Position.scan (db.move it.op none)) p rest
  valid : ∀ e ∈ rest, db.validKey e.1
  closed : rest.Pairwise fun a b => it.within b = true → it.within a = true

/-- An entry that `find_next` comes to is checked against the end that lies ahead. -/
theorem aborts_eq {it : CursorIterator σ} (bounded : Bounded db it) {e : KeyVal}
    (valid : db.validKey e.1) : it.aborts e.1 = some (!it.within e) := by
  unfold within aborts
  cases it.ascending with
  | true =>
    obtain ⟨order, eq, less, -⟩ := bounded.compareKeys_eq bounded.upper valid
    simp [eq, less]
  | false =>
    obtain ⟨order, eq, -, greater⟩ := bounded.compareKeys_eq bounded.lower valid
    simp [eq, greater]

theorem findNext_eq (lawful : db.Lawful opGet At) {it : CursorIterator σ} {rest : List KeyVal}
    (scanning : Scanning db At it rest) :
    ∃ c, it.findNext opGet = some { it with cursor := c, next := rest.head?.filter it.within } ∧
      Scanning db At { it with cursor := c, next := rest.head?.filter it.within } rest.tail := by
  obtain ⟨p, stands, yields⟩ := scanning.stands
  obtain ⟨p', eq, yields'⟩ := yields.uncons
  obtain ⟨head, rfl⟩ := Prod.mk.inj (Option.some.inj eq)
  have admitted : db.Admits At it.op none it.cursor p := by
    rcases scanning.scans with op | op | op | op <;> rw [op] <;> exact ⟨rfl, stands⟩
  obtain ⟨c, moved, stands'⟩ := lawful.moves it.op none it.cursor p admitted
  rw [head] at moved
  refine ⟨c, ?_, ⟨scanning.integerKey, scanning.lower, scanning.upper⟩, scanning.scans,
    ⟨_, stands', yields'⟩,
    fun e mem => scanning.valid e (List.mem_of_mem_tail mem), scanning.closed.tail⟩
  unfold findNext
  rw [moved]
  cases first : rest.head? with
  | none => rfl
  | some e =>
    have valid := scanning.valid e (List.mem_of_mem_head? first)
    show (it.aborts e.1).bind _ = _
    rw [aborts_eq scanning.toBounded valid, Option.bind_some, Option.filter_some]
    cases it.within e <;> rfl

theorem head_append_tail (p : KeyVal → Bool) (rest : List KeyVal) :
    (rest.head?.filter p).toList ++ rest.tail.filter p = rest.filter p := by
  cases rest with
  | nil => rfl
  | cons e rest => cases holds : p e <;> simp [Option.filter, holds]

/-- Where the first entry is out of the range, all others are. -/
theorem filter_tail_eq_nil {p : KeyVal → Bool} {rest : List KeyVal}
    (closed : rest.Pairwise fun a b => p b = true → p a = true)
    (out : rest.head?.filter p = none) : rest.tail.filter p = [] := by
  cases rest with
  | nil => rfl
  | cons e rest =>
    have outside : ¬ p e = true := by
      intro inside
      rw [List.head?_cons, Option.filter_some_pos inside] at out
      cases out
    apply List.filter_eq_nil_iff.mpr
    intro x mem inside
    exact outside ((List.pairwise_cons.mp closed).1 x mem inside)

/-- What an iteration yields that has found its first entry. -/
theorem yields_of_scanning (lawful : db.Lawful opGet At) {it : CursorIterator σ}
    {rest : List KeyVal} (scanning : Scanning db At it rest)
    (finished : it.next = none → rest.filter it.within = []) :
    Yields (nextEntry opGet) it (it.next.toList ++ rest.filter it.within) := by
  apply Yields.of_invariant (I := fun it found => ∃ rest, Scanning db At it rest ∧
    (it.next = none → rest.filter it.within = []) ∧
    found = it.next.toList ++ rest.filter it.within)
  · intro it found ⟨rest, scanning, finished, eq⟩
    obtain ⟨c, next, scanning'⟩ := findNext_eq lawful scanning
    refine ⟨_, ?_, rest.tail, scanning', ?_, ?_⟩
    · rw [nextEntry, next, Option.map_some, eq]
      cases first : it.next with
      | none => rw [finished first]; rfl
      | some e => rfl
    · intro none'
      exact filter_tail_eq_nil scanning.closed none'
    · show found.tail = (rest.head?.filter it.within).toList ++ rest.tail.filter it.within
      rw [eq, head_append_tail]
      cases first : it.next with
      | none => rw [finished first]; rfl
      | some e => rfl
  · exact ⟨rest, scanning, finished, rfl⟩

/-! ## The first entry -/

section
variable {it : CursorIterator σ} {duplicates : Bool} {c : σ}

theorem moveToFirst_none (first : it.firstEntry opGet duplicates = .ok (none, c)) :
    it.moveToFirst opGet duplicates = .ok { it with cursor := c, next := none } := by
  rw [moveToFirst, first]
  rfl

theorem moveToFirst_some {e : KeyVal} {order : Ordering}
    (first : it.firstEntry opGet duplicates = .ok (some e, c))
    (compared : compareKeys it.integerKey it.upperKey e.1 = some order) (inside : order ≠ .lt) :
    it.moveToFirst opGet duplicates = .ok { it with cursor := c, next := some e } := by
  rw [moveToFirst, first]
  show (orPanic (compareKeys it.integerKey it.upperKey e.1) >>= _) = _
  rw [compared]
  exact if_neg inside

theorem moveToFirst_beyond {e : KeyVal}
    (first : it.firstEntry opGet duplicates = .ok (some e, c))
    (compared : compareKeys it.integerKey it.upperKey e.1 = some .lt)
    (ascends : it.ascending = true) :
    it.moveToFirst opGet duplicates = .ok { it with cursor := c, next := none } := by
  rw [moveToFirst, first]
  show (orPanic (compareKeys it.integerKey it.upperKey e.1) >>= _) = _
  rw [compared]
  show (if (!it.ascending) = true then _ else _) = _
  rw [ascends]
  rfl

/-- Where the entry is behind the range, the descent starts with the one before it. -/
theorem moveToFirst_back (bounded : Bounded db it) {e : KeyVal}
    (first : it.firstEntry opGet duplicates = .ok (some e, c))
    (compared : compareKeys it.integerKey it.upperKey e.1 = some .lt)
    (descends : it.ascending = false) {prev : Option KeyVal} {c' : σ}
    (back : moveTo opGet .prevNoDup none c = .ok (prev, c')) (valid : ∀ x ∈ prev, db.validKey x.1) :
    it.moveToFirst opGet duplicates =
      .ok { it with cursor := c', next := prev.filter it.within } := by
  rw [moveToFirst, first]
  show (orPanic (compareKeys it.integerKey it.upperKey e.1) >>= _) = _
  rw [compared]
  show (if (!it.ascending) = true then moveTo opGet .prevNoDup none c >>= _ else _) = _
  rw [descends, back]
  cases prev with
  | none => rfl
  | some x =>
    obtain ⟨order, eq, -, greater⟩ := bounded.compareKeys_eq bounded.lower (valid x rfl)
    show (orPanic (compareKeys it.integerKey it.lowerKey x.1) >>= _) = _
    rw [eq]
    have inside : it.within x = !decide (order = .gt) := by
      rw [within, descends]
      simp [greater]
    rw [Option.filter_some, inside]
    by_cases out : order = .gt <;> simp [out, orPanic, bind, Except.bind, pure, Except.pure]

/-- An ascent starts with the first entry from its lower key on. -/
theorem moveToFirst_ascending (lawful : db.Lawful opGet At) (bounded : Bounded db it)
    (ascends : it.ascending = true) :
    ∃ c, it.moveToFirst opGet duplicates =
        .ok { it with cursor := c, next := (db.atLeast it.lowerKey).head?.filter it.within } ∧
      At c (Position.ahead (db.below it.lowerKey).reverse (db.atLeast it.lowerKey)) := by
  obtain ⟨c, moved, stands'⟩ := seek_key lawful bounded.lower it.cursor
  have first : it.firstEntry opGet duplicates = .ok ((db.atLeast it.lowerKey).head?, c) := by
    rw [firstEntry, ascends]
    exact moved
  refine ⟨c, ?_, stands'⟩
  cases head : (db.atLeast it.lowerKey).head? with
  | none => exact moveToFirst_none (head ▸ first)
  | some e =>
    have stored := (List.mem_filter.mp (List.mem_of_mem_head? head)).1
    obtain ⟨order, eq, less, -⟩ := bounded.compareKeys_eq bounded.upper (db.valid e stored)
    have inside : it.within e = !decide (order = .lt) := by
      rw [within, ascends]
      simp [less]
    rw [Option.filter_some, inside]
    by_cases out : order = .lt
    · rw [out] at eq ⊢
      exact moveToFirst_beyond (head ▸ first) eq ascends
    · rw [decide_eq_false out]
      exact moveToFirst_some (head ▸ first) eq out

section
variable (lawful : db.Lawful opGet At) (bounded : Bounded db it) (descends : it.ascending = false)
include lawful bounded descends

/-- Without an entry from the upper key on, the descent starts with the last one of all. -/
theorem moveToFirst_last (none' : db.atLeast it.upperKey = []) :
    ∃ c right, it.moveToFirst opGet duplicates =
        .ok { it with cursor := c, next := (db.downFrom it.upperKey).head?.filter it.within } ∧
      At c (Position.behind right (db.downFrom it.upperKey)) := by
  obtain ⟨c, moved, stands'⟩ := seek_key lawful bounded.upper it.cursor
  have admitted : db.Admits At .last none c (Position.ahead (db.below it.upperKey).reverse
    (db.atLeast it.upperKey)) := rfl
  obtain ⟨c', moved', stands''⟩ := moveTo_eq lawful admitted
  have all : db.downFrom it.upperKey = db.entries.reverse := by
    rw [KeyValueDb.downFrom_eq, none', ← db.below_append_atLeast it.upperKey, none']
    simp
  have last : db.move .last none (Position.ahead (db.below it.upperKey).reverse
      (db.atLeast it.upperKey)) = Position.behind [] (db.downFrom it.upperKey) := by
    rw [all]
    rfl
  rw [last, Position.entry_behind] at moved'
  rw [last] at stands''
  refine ⟨c', [], ?_, stands''⟩
  rw [none', List.head?_nil] at moved
  have first : it.firstEntry opGet duplicates =
      .ok ((db.downFrom it.upperKey).head?.filter it.within, c') := by
    rw [firstEntry, descends]
    show (moveTo opGet .setRange (some it.upperKey) it.cursor >>= _) = _
    rw [moved]
    show (moveTo opGet .last none c >>= _) = _
    rw [moved']
    cases head : (db.downFrom it.upperKey).head? with
    | none => rfl
    | some e =>
      have mem := List.mem_of_mem_head? head
      rw [all] at mem
      obtain ⟨order, eq, -, greater⟩ :=
        bounded.compareKeys_eq bounded.lower (db.valid e (List.mem_reverse.mp mem))
      show (orPanic (compareKeys it.integerKey it.lowerKey e.1) >>= _) = _
      rw [eq]
      have inside : it.within e = !decide (order = .gt) := by
        rw [within, descends]
        simp [greater]
      rw [Option.filter_some, inside]
      by_cases out : order = .gt <;> simp [out, orPanic, bind, Except.bind, pure, Except.pure]
  cases head : (db.downFrom it.upperKey).head?.filter it.within with
  | none => exact moveToFirst_none (head ▸ first)
  | some e =>
    have stored : e ∈ db.below it.upperKey := by
      have mem := List.mem_of_mem_head? (Option.filter_eq_some_iff.mp head).1
      rw [KeyValueDb.downFrom_eq, none'] at mem
      simpa using mem
    obtain ⟨entry, less⟩ := List.mem_filter.mp stored
    obtain ⟨order, eq, greater, -⟩ := bounded.compareKeys_eq bounded.upper (db.valid e entry)
    apply moveToFirst_some (head ▸ first) eq
    intro beyond
    rw [bounded.integerKey] at greater
    exact keyLt_irrefl _ (keyLt_trans (of_decide_eq_true less) (greater.mp beyond))

/-- With an entry from the upper key on, the cursor is set to the last one of its key. -/
theorem firstEntry_found {e : KeyVal} {right : List KeyVal}
    (found : db.atLeast it.upperKey = e :: right) :
    ∃ c e', it.firstEntry opGet db.duplicates = .ok (some e', c) ∧
      At c ((Position.on (db.below it.upperKey).reverse e right).lastDup
        (Position.sameKey Prod.fst)) ∧
      ((Position.on (db.below it.upperKey).reverse e right).lastDup
        (Position.sameKey Prod.fst)).entry = some e' ∧ e.1 = e'.1 := by
  obtain ⟨c, moved, stands'⟩ := seek_key lawful bounded.upper it.cursor
  rw [found] at moved stands'
  have opened : it.firstEntry opGet db.duplicates = if db.duplicates then do
        let last ← moveTo opGet .lastDup none c
        pure (last.1.or (some e), last.2)
      else pure (some e, c) := by
    rw [firstEntry, descends]
    show (moveTo opGet .setRange (some it.upperKey) it.cursor >>= _) = _
    rw [moved]
    rfl
  rw [opened]
  cases multiple : db.duplicates with
  | true =>
    have admitted : db.Admits At .lastDup none c (Position.ahead (db.below it.upperKey).reverse
      (e :: right)) := ⟨rfl, stands', multiple, e, rfl⟩
    obtain ⟨c', moved', stands''⟩ := moveTo_eq lawful admitted
    obtain ⟨e', entry, same⟩ :=
      @Position.entry_lastDup _ _ _ Prod.fst (db.below it.upperKey).reverse e right
    refine ⟨c', e', ?_, stands'', entry, same⟩
    rw [if_pos rfl, moved']
    show Except.ok (Option.or _ (some e), c') = _
    rw [show (db.move .lastDup none (Position.ahead (db.below it.upperKey).reverse
      (e :: right))).entry = some e' from entry]
    rfl
  | false =>
    have alone : (Position.on (db.below it.upperKey).reverse e right).lastDup
        (Position.sameKey Prod.fst) = Position.on (db.below it.upperKey).reverse e right := by
      have none' := KeyValueDb.takeWhile_sameKey_eq_nil multiple found
      have rest := @List.takeWhile_append_dropWhile _ (Position.sameKey Prod.fst e) right
      rw [none', List.nil_append] at rest
      show Position.behind (right.dropWhile (Position.sameKey Prod.fst e))
        ((right.takeWhile (Position.sameKey Prod.fst e)).reverse ++ e :: _) = _
      rw [none', rest]
      rfl
    rw [alone]
    exact ⟨c, e, rfl, stands', rfl, rfl⟩

/-- A descent starts with the last entry up to its upper key. -/
theorem moveToFirst_descending (upward : ¬ keyLt db.integerKey it.upperKey it.lowerKey) :
    ∃ c right, it.moveToFirst opGet db.duplicates =
        .ok { it with cursor := c, next := (db.downFrom it.upperKey).head?.filter it.within } ∧
      At c (Position.behind right (db.downFrom it.upperKey)) := by
  cases found : db.atLeast it.upperKey with
  | nil => exact moveToFirst_last lawful bounded descends found
  | cons e right =>
    obtain ⟨c, e', first, stands', entry, same⟩ :=
      firstEntry_found lawful bounded descends found
    have mem : e ∈ db.atLeast it.upperKey := found ▸ List.mem_cons_self
    obtain ⟨stored, notBelow⟩ := List.mem_filter.mp mem
    have valid : db.validKey e'.1 := same ▸ db.valid e stored
    obtain ⟨order, eq, less, -⟩ := bounded.compareKeys_eq bounded.upper valid
    rw [bounded.integerKey, ← same] at less
    by_cases beyond : keyLt db.integerKey it.upperKey e.1
    · have admitted : db.Admits At .prevNoDup none c ((Position.on (db.below it.upperKey).reverse e
          right).lastDup (Position.sameKey Prod.fst)) := ⟨rfl, stands'⟩
      obtain ⟨c', moved, stands''⟩ := moveTo_eq lawful admitted
      obtain ⟨right', back⟩ := KeyValueDb.back_eq found beyond
      have position : db.move .prevNoDup none ((Position.on (db.below it.upperKey).reverse e
          right).lastDup (Position.sameKey Prod.fst)) =
          Position.behind right' (db.downFrom it.upperKey) := back
      rw [position, Position.entry_behind] at moved
      rw [position] at stands''
      refine ⟨c', right', ?_, stands''⟩
      rw [less.mpr beyond] at eq
      apply moveToFirst_back bounded first eq descends moved
      intro x there
      have memX := List.mem_of_mem_head? there
      exact db.valid x (List.mem_filter.mp (List.mem_reverse.mp memX)).1
    · obtain ⟨right', stay⟩ := KeyValueDb.stay_eq found beyond
      rw [stay, Position.entry_behind] at entry
      rw [stay] at stands'
      refine ⟨c, right', ?_, stands'⟩
      have inside : it.within e' = true := by
        rw [within, descends, bounded.integerKey, ← same]
        simp only [Bool.false_eq_true, if_false, Bool.not_eq_true', decide_eq_false_iff_not]
        intro below
        have below' := keyLt_of_lt_of_le below upward
        rw [decide_eq_true below'] at notBelow
        cases notBelow
      rw [entry, Option.filter_some_pos inside]
      exact moveToFirst_some first eq fun out => beyond (less.mp out)

end

end

/-! ## Ranges -/

/-- The entries that a scan with or without duplicates passes. -/
def pass (skipDuplicates : Bool) (entries : List KeyVal) : List KeyVal :=
  if skipDuplicates then Position.heads (Position.sameKey Prod.fst) entries else entries

theorem pass_sublist (skipDuplicates : Bool) (entries : List KeyVal) :
    (pass skipDuplicates entries).Sublist entries := by
  cases skipDuplicates with
  | true => exact Position.heads_sublist entries
  | false => exact List.Sublist.refl entries

theorem head?_pass (skipDuplicates : Bool) (entries : List KeyVal) :
    (pass skipDuplicates entries).head? = entries.head? := by
  cases skipDuplicates with
  | true => exact Position.head?_heads entries
  | false => rfl

/-- What an iteration yields whose cursor is on the first of the entries ahead of it. -/
theorem yields_pass (lawful : db.Lawful opGet At) {it : CursorIterator σ}
    (bounded : Bounded db it) {skipDuplicates : Bool} {entries : List KeyVal}
    (stored : ∀ e ∈ entries, e ∈ db.entries)
    (closed : entries.Pairwise fun a b => it.within b = true → it.within a = true)
    (op : it.op = .next ∨ it.op = .nextNoDup ∨ it.op = .prev ∨ it.op = .prevNoDup)
    {c : σ} {p : Position KeyVal} (stands : At c p)
    (scans : Yields (Position.scan (db.move it.op none)) p (pass skipDuplicates entries).tail) :
    Yields (nextEntry opGet) { it with cursor := c, next := entries.head?.filter it.within }
      ((pass skipDuplicates entries).filter it.within) := by
  have sub := pass_sublist skipDuplicates entries
  have closed' := closed.sublist sub
  rw [← head?_pass skipDuplicates]
  have scanning : Scanning db At
      { it with cursor := c, next := (pass skipDuplicates entries).head?.filter it.within }
      (pass skipDuplicates entries).tail :=
    { integerKey := bounded.integerKey
      lower := bounded.lower
      upper := bounded.upper
      scans := op
      stands := ⟨p, stands, scans⟩
      valid := fun e mem => db.valid e (stored e (sub.subset (List.mem_of_mem_tail mem)))
      closed := closed'.tail }
  have yields := yields_of_scanning lawful scanning (filter_tail_eq_nil closed')
  rw [← head_append_tail]
  exact yields

section
variable (skipDuplicates : Bool) {op : CursorOp} (entries : List KeyVal)

theorem scans_ahead (eq : op = if skipDuplicates then .nextNoDup else .next)
    (left : List KeyVal) : Yields (Position.scan (db.move op none)) (Position.ahead left entries)
      (pass skipDuplicates entries).tail := by
  subst eq
  cases skipDuplicates with
  | true =>
    have yields := @Position.yields_nextNoDup _ (Position.sameKey Prod.fst)
      (Position.ahead left entries)
    rw [Position.newRight_ahead] at yields
    exact yields
  | false =>
    have yields := Position.yields_next (Position.ahead left entries)
    rw [Position.right_ahead] at yields
    exact yields

theorem scans_behind (eq : op = if skipDuplicates then .prevNoDup else .prev)
    (right : List KeyVal) : Yields (Position.scan (db.move op none))
      (Position.behind right entries) (pass skipDuplicates entries).tail := by
  subst eq
  cases skipDuplicates with
  | true =>
    have yields := @Position.yields_prevNoDup _ (Position.sameKey Prod.fst)
      (Position.behind right entries)
    rw [Position.newLeft_behind] at yields
    exact yields
  | false =>
    have yields := Position.yields_prev (Position.behind right entries)
    rw [Position.left_behind] at yields
    exact yields

end

/-- What a range asks for, as one choice among the entries ahead. -/
theorem answer_of_pass {lt : Bytes → Bytes → Prop} (trans : ∀ a b c, lt a b → lt b c → lt a c)
    (irrefl : ∀ a, ¬ lt a a) {it : CursorIterator σ} (skipDuplicates : Bool) {entries : List KeyVal}
    (sorted : entries.Pairwise fun a b => lt a.1 b.1 ∨ a.1 = b.1) :
    if skipDuplicates then OnePerKey Prod.fst (entries.filter it.within)
      ((pass skipDuplicates entries).filter it.within)
    else (pass skipDuplicates entries).filter it.within = entries.filter it.within := by
  cases skipDuplicates with
  | true =>
    apply (Position.onePerKey_heads trans irrefl sorted).filter
    intro a b same
    rw [within, within, same]
  | false => rfl

section
variable (lawful : db.Lawful opGet At) {it : CursorIterator σ} (bounded : Bounded db it)
  (skipDuplicates : Bool)
include lawful bounded

theorem yields_ascending (ascends : it.ascending = true)
    (op : it.op = if skipDuplicates then .nextNoDup else .next) :
    ∃ it' found, it.moveToFirst opGet db.duplicates = .ok it' ∧ Yields (nextEntry opGet) it' found ∧
      if skipDuplicates then OnePerKey Prod.fst (db.between it.lowerKey it.upperKey) found
      else found = db.between it.lowerKey it.upperKey := by
  obtain ⟨c, moved, stands'⟩ := moveToFirst_ascending lawful bounded ascends
  have inside (e : KeyVal) :
      it.within e = !decide (keyLt db.integerKey it.upperKey e.1) := by
    rw [within, ascends, bounded.integerKey]
    rfl
  have sorted := db.ascending_atLeast it.lowerKey
  have closed : (db.atLeast it.lowerKey).Pairwise fun a b =>
      it.within b = true → it.within a = true := by
    apply sorted.imp
    intro a b le
    simp only [inside, Bool.not_eq_true', decide_eq_false_iff_not]
    intro upTo beyond
    exact upTo (KeyValueDb.keyLt_of_le le beyond)
  have range : (db.atLeast it.lowerKey).filter it.within = db.between it.lowerKey it.upperKey := by
    rw [KeyValueDb.atLeast, KeyValueDb.between, List.filter_filter]
    apply List.filter_congr
    intro e _
    rw [inside, Bool.and_comm]
  refine ⟨_, (pass skipDuplicates (db.atLeast it.lowerKey)).filter it.within, moved, ?_, ?_⟩
  · exact yields_pass lawful bounded (fun e mem => (List.mem_filter.mp mem).1) closed
      (by rw [op]; cases skipDuplicates <;> simp) stands'
      (scans_ahead skipDuplicates _ op _)
  · rw [← range]
    exact answer_of_pass (fun a b c => @keyLt_trans db.integerKey a b c) keyLt_irrefl
      skipDuplicates sorted

theorem yields_descending (descends : it.ascending = false)
    (op : it.op = if skipDuplicates then .prevNoDup else .prev)
    (upward : ¬ keyLt db.integerKey it.upperKey it.lowerKey) :
    ∃ it' found, it.moveToFirst opGet db.duplicates = .ok it' ∧ Yields (nextEntry opGet) it' found ∧
      if skipDuplicates then OnePerKey Prod.fst (db.between it.lowerKey it.upperKey).reverse found
      else found = (db.between it.lowerKey it.upperKey).reverse := by
  obtain ⟨c, right, moved, stands'⟩ :=
    moveToFirst_descending lawful bounded descends upward
  have inside (e : KeyVal) :
      it.within e = !decide (keyLt db.integerKey e.1 it.lowerKey) := by
    rw [within, descends, bounded.integerKey]
    rfl
  have sorted : (db.downFrom it.upperKey).Pairwise fun a b =>
      keyLt db.integerKey b.1 a.1 ∨ a.1 = b.1 := by
    apply List.pairwise_reverse.mpr
    apply (db.ascending.filter _).imp
    intro a b le
    exact le.imp_right Eq.symm
  have closed : (db.downFrom it.upperKey).Pairwise fun a b =>
      it.within b = true → it.within a = true := by
    apply sorted.imp
    intro a b le
    simp only [inside, Bool.not_eq_true', decide_eq_false_iff_not]
    intro above
    exact KeyValueDb.not_keyLt_of_le (le.imp_right Eq.symm) above
  have range : (db.downFrom it.upperKey).filter it.within =
      (db.between it.lowerKey it.upperKey).reverse := by
    rw [KeyValueDb.downFrom, KeyValueDb.between, List.filter_reverse, List.filter_filter]
    congr 1
    apply List.filter_congr
    intro e _
    rw [inside]
  refine ⟨_, (pass skipDuplicates (db.downFrom it.upperKey)).filter it.within, moved, ?_, ?_⟩
  · exact yields_pass lawful bounded
      (fun e mem => (List.mem_filter.mp (List.mem_reverse.mp mem)).1) closed
      (by rw [op]; cases skipDuplicates <;> simp) stands'
      (scans_behind skipDuplicates _ op _)
  · rw [← range]
    exact answer_of_pass
      (fun a b c (less : keyLt db.integerKey b a) less' => keyLt_trans less' less) keyLt_irrefl
      skipDuplicates sorted

end

end CursorIterator

theorem KeyValueDb.refuses_listCursor (db : KeyValueDb) : db.Refuses db.listCursor := by
  intro integer key cursor notFour notEight
  rw [listCursor, if_pos ⟨integer, rfl, key, rfl, notFour, notEight⟩]

theorem KeyValueDb.lawful_listCursor (db : KeyValueDb) : db.Lawful db.listCursor Eq where
  moves := by
    intro op key cursor p admitted
    cases op with
    | setRange =>
      obtain ⟨k, rfl, valid⟩ := admitted
      refine ⟨_, ?_, rfl⟩
      apply if_neg
      rintro ⟨integer, _, _, ⟨⟩, _, notEight⟩
      exact notEight (db.eightBytes integer k valid)
    | last =>
      refine ⟨_, ?_, rfl⟩
      rw [listCursor, if_neg (by simp)]
      rfl
    | _ =>
      obtain ⟨rfl, stands⟩ := admitted
      obtain rfl : cursor = p := by first | exact stands | exact stands.1
      exact ⟨_, by simp [listCursor], rfl⟩
  refuses := db.refuses_listCursor

/-- Between any two keys a range cursor yields the entries of the range, or one for each key, in
the direction from the first key to the second one, and nothing after them. -/
theorem cursorIterator_yields {σ : Type}
    {opGet : CursorOp → Option Bytes → σ → Result (Option KeyVal) × σ} {db : KeyValueDb}
    {At : σ → Position KeyVal → Prop} (lawful : db.Lawful opGet At) {cursor : σ}
    {startKey endKey : Bytes} (start : db.validKey startKey) (stop : db.validKey endKey)
    (skipDuplicates : Bool) :
    ∃ it found,
      CursorIterator.new opGet cursor startKey endKey db.integerKey db.duplicates skipDuplicates =
        .ok it ∧
      Yields (CursorIterator.nextEntry opGet) it found ∧
      if skipDuplicates then OnePerKey Prod.fst (db.range startKey endKey) found
      else found = db.range startKey endKey := by
  obtain ⟨order, eq, -, greater⟩ :=
    compareKeys_eq (fun integer => db.eightBytes integer _ start)
      (fun integer => db.eightBytes integer _ stop)
  rw [CursorIterator.new, eq, KeyValueDb.range]
  show ∃ it found, CursorIterator.moveToFirst opGet (CursorIterator.unmoved cursor startKey endKey
    db.integerKey (decide (order ≠ .gt)) skipDuplicates) db.duplicates = .ok it ∧ _
  by_cases downward : keyLt db.integerKey endKey startKey
  · rw [if_pos downward, decide_eq_false (not_not.mpr (greater.mpr downward))]
    apply CursorIterator.yields_descending lawful ⟨rfl, stop, start⟩ skipDuplicates rfl
    · cases skipDuplicates <;> rfl
    · intro upward
      exact keyLt_irrefl _ (keyLt_trans upward downward)
  · have ascends : decide (order ≠ .gt) = true := decide_eq_true fun gt => downward (greater.mp gt)
    rw [if_neg downward, ascends]
    apply CursorIterator.yields_ascending lawful ⟨rfl, start, stop⟩ skipDuplicates rfl
    cases skipDuplicates <;> rfl

/-- `TxnCursor::iter` starts at the empty key, which is no integer key: on a database with integer
keys the cursor does not come to its first entry. -/
theorem TxnCursor.iter_of_refuses {xxh3_64 : Bytes → UInt64} {σ : Type}
    {opGet : CursorOp → Option Bytes → σ → Result (Option KeyVal) × σ} {db : KeyValueDb}
    (refuses : db.Refuses opGet) (integer : db.integerKey = true) (cursor : σ) :
    TxnCursor.iter opGet xxh3_64 cursor = fail (.dbError (-30781) "MDBX_BAD_VALSIZE") := by
  have refused := refuses integer [] cursor (by decide) (by decide)
  have lookup : CursorIterator.moveTo opGet .setRange (some []) cursor =
      fail (.dbError (-30781) "MDBX_BAD_VALSIZE") := by
    rw [CursorIterator.moveTo]
    rcases eq : opGet .setRange (some []) cursor with ⟨answer, cursor'⟩
    rw [eq] at refused
    rw [show answer = _ from refused]
    rfl
  have order : compareKeys false (IndexKey.min.finish xxh3_64).1
      (TxnCursor.maxKey.finish xxh3_64).1 = some .lt := rfl
  rw [TxnCursor.iter, TxnCursor.iterBetween, CursorIterator.new, order]
  show (CursorIterator.moveTo opGet .setRange (some []) cursor >>= _) = _
  rw [lookup]
  rfl

/-- An index on words, with duplicates. -/
def wordIndex : KeyValueDb where
  integerKey := false
  duplicates := true
  validKey := fun _ => True
  entries := [([97], [1]), ([97], [2]), ([98], [1]), ([100], [1])]
  eightBytes := nofun
  valid := fun _ _ => trivial
  sorted := by decide

/-- Down from a key that is not there, every entry once. -/
theorem wordIndex_yields : ∃ it found,
    CursorIterator.new wordIndex.listCursor (.before []) [99] [97] false true false = .ok it ∧
    Yields (CursorIterator.nextEntry wordIndex.listCursor) it found ∧
    found = [([98], [1]), ([97], [2]), ([97], [1])] := by
  obtain ⟨it, found, opened, yields, eq⟩ := @cursorIterator_yields _ _ _ _
    wordIndex.lawful_listCursor (.before []) [99] [97] trivial trivial false
  exact ⟨it, found, opened, yields, eq.trans (by decide)⟩

end IsarPlus.Native
