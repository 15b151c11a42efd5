import IsarPlus.Lib.SortedCursor
import IsarPlus.Native.Index

/-!
# Range cursors

`isar_core/src/native/mdbx/cursor_iterator.rs`: the entries of a database between two keys. The
cursors of libmdbx are a parameter: a state and what `op_get` answers in it.
-/

namespace IsarPlus.Native
open ByteBuffer SortedCursor

/-- `KeyVal` (`mdbx/mod.rs:15`). -/
abbrev KeyVal := Bytes × Bytes

/-- The operations of `MDBX_cursor_op` that a range cursor uses: `SET_RANGE`, `LAST`, `LAST_DUP`,
`NEXT`, `NEXT_NODUP`, `PREV` and `PREV_NODUP`. -/
inductive CursorOp where
  | setRange | last | lastDup | next | nextNoDup | prev | prevNoDup
  deriving DecidableEq, Repr

/-- `compare_keys` (`mdbx/mod.rs:68-82`): integer keys are read as eight bytes, and a shorter one is
a panic. -/
def compareKeys (integerKey : Bool) (key1 key2 : Bytes) : Option Ordering :=
  if integerKey then
    if 8 ≤ key1.length ∧ 8 ≤ key2.length then
      some (cmp (leNat (key1.take 8)) (leNat (key2.take 8)))
    else none
  else
    let len := min key1.length key2.length
    let order := cmp (key1.take len) (key2.take len)
    some (if order = .eq then cmp key1.length key2.length else order)

/-- `CursorIterator` (`cursor_iterator.rs:5-13`). -/
structure CursorIterator (σ : Type) where
  cursor : σ
  lowerKey : Bytes
  upperKey : Bytes
  integerKey : Bool
  ascending : Bool
  op : CursorOp
  next : Option KeyVal

namespace CursorIterator

variable {σ : Type} (opGet : CursorOp → Option Bytes → σ → Result (Option KeyVal) × σ)

/-- An operation whose error is returned to the caller. -/
def moveTo (op : CursorOp) (key : Option Bytes) (cursor : σ) : Result (Option KeyVal × σ) :=
  match opGet op key cursor with
  | (.ok entry, cursor) => .ok (entry, cursor)
  | (.error e, _) => .error e

/-- The entry at the end of the range where the iteration starts, or the one behind it
(`cursor_iterator.rs:50-74`). -/
def firstEntry (it : CursorIterator σ) (duplicates : Bool) : Result (Option KeyVal × σ) :=
  if !it.ascending then do
    let (firstEntry, cursor) ← moveTo opGet .setRange (some it.upperKey) it.cursor
    match firstEntry with
    | some firstEntry =>
      if duplicates then do
        let (lastDup, cursor) ← moveTo opGet .lastDup none cursor
        pure (lastDup.or (some firstEntry), cursor)
      else pure (some firstEntry, cursor)
    | none => do
      let (last, cursor) ← moveTo opGet .last none cursor
      match last with
      | some last => do
        -- The last key of the database can still be in the range.
        let order ← orPanic (compareKeys it.integerKey it.lowerKey last.1)
        pure (if order ≠ .gt then some last else none, cursor)
      | none => pure (none, cursor)
  else moveTo opGet .setRange (some it.lowerKey) it.cursor

/-- `move_to_first` (`cursor_iterator.rs:49-94`). -/
def moveToFirst (it : CursorIterator σ) (duplicates : Bool) : Result (CursorIterator σ) := do
  let (firstEntry, cursor) ← it.firstEntry opGet duplicates
  match firstEntry with
  | some firstEntry => do
    let order ← orPanic (compareKeys it.integerKey it.upperKey firstEntry.1)
    if order = .lt then
      if !it.ascending then do
        let (prev, cursor) ← moveTo opGet .prevNoDup none cursor
        match prev with
        | some prev => do
          let order ← orPanic (compareKeys it.integerKey it.lowerKey prev.1)
          pure { it with cursor, next := if order ≠ .gt then some prev else none }
        | none => pure { it with cursor, next := none }
      else pure { it with cursor, next := none }
    else pure { it with cursor, next := some firstEntry }
  | none => pure { it with cursor, next := none }

/-- The iterator before its cursor has moved. -/
def unmoved (cursor : σ) (startKey endKey : Bytes) (integerKey ascending skipDuplicates : Bool) :
    CursorIterator σ where
  cursor := cursor
  lowerKey := if ascending then startKey else endKey
  upperKey := if ascending then endKey else startKey
  integerKey := integerKey
  ascending := ascending
  op := match ascending, skipDuplicates with
    | true, true => .nextNoDup
    | true, false => .next
    | false, true => .prevNoDup
    | false, false => .prev
  next := none

/-- `CursorIterator::new` (`cursor_iterator.rs:16-47`). -/
def new (cursor : σ) (startKey endKey : Bytes) (integerKey duplicates skipDuplicates : Bool) :
    Result (CursorIterator σ) := do
  let order ← orPanic (compareKeys integerKey startKey endKey)
  let ascending : Bool := order ≠ .gt
  moveToFirst opGet (unmoved cursor startKey endKey integerKey ascending skipDuplicates) duplicates

/-- The check of `find_next` whether a key is out of the range. -/
def aborts (it : CursorIterator σ) (key : Bytes) : Option Bool :=
  if it.ascending then
    (compareKeys it.integerKey it.upperKey key).map fun order => decide (order = .lt)
  else (compareKeys it.integerKey it.lowerKey key).map fun order => decide (order = .gt)

/-- `find_next` (`cursor_iterator.rs:96-116`): an error of the cursor ends the iteration. -/
def findNext (it : CursorIterator σ) : Option (CursorIterator σ) :=
  match opGet it.op none it.cursor with
  | (.ok (some entry), cursor) => do
    let abort ← it.aborts entry.1
    pure { it with cursor, next := if abort then none else some entry }
  | (_, cursor) => some { it with cursor, next := none }

/-- `Iterator::next` (`cursor_iterator.rs:126-131`). -/
def nextEntry (it : CursorIterator σ) : Option (Option KeyVal × CursorIterator σ) :=
  (it.findNext opGet).map fun it' => (it.next, it')

end CursorIterator

/-! ## Cursors of a transaction -/

namespace TxnCursor

variable {σ : Type} (opGet : CursorOp → Option Bytes → σ → Result (Option KeyVal) × σ)

/-- `iter_between_ids` (`native_txn.rs:127-142`). -/
def iterBetweenIds (cursor : σ) (startId endId : Int64) (duplicates skipDuplicates : Bool) :
    Result (CursorIterator σ) :=
  CursorIterator.new opGet cursor (toIdBytes startId) (toIdBytes endId) true duplicates
    skipDuplicates

/-- `iter_between` (`native_txn.rs:144-152`). -/
def iterBetween (cursor : σ) (startKey endKey : Bytes) (duplicates skipDuplicates : Bool) :
    Result (CursorIterator σ) :=
  CursorIterator.new opGet cursor startKey endKey false duplicates skipDuplicates

/-- `IndexKey::max` (`index_key.rs:19-26`). -/
def maxKey : IndexKey := IndexKey.min.addLong Int64.maxValue

/-- `iter` (`native_txn.rs:118-125`). -/
def iter (xxh3_64 : Bytes → UInt64) (cursor : σ) : Result (CursorIterator σ) :=
  iterBetween opGet cursor (IndexKey.min.finish xxh3_64).1 (maxKey.finish xxh3_64).1 false false

end TxnCursor

/-! ## Databases -/

/-- The order of the keys of a database: unsigned integers, or lexicographic. -/
def keyLt (integerKey : Bool) (key1 key2 : Bytes) : Prop :=
  if integerKey then leNat key1 < leNat key2 else key1 < key2

instance (integerKey : Bool) (key1 key2 : Bytes) : Decidable (keyLt integerKey key1 key2) :=
  inferInstanceAs (Decidable (if integerKey then leNat key1 < leNat key2 else key1 < key2))

/-- What a database holds, in its order: the keys ascend, and duplicates ascend under their key. -/
structure KeyValueDb where
  integerKey : Bool
  duplicates : Bool
  validKey : Bytes → Prop
  entries : List KeyVal
  eightBytes : integerKey = true → ∀ key, validKey key → key.length = 8
  valid : ∀ e ∈ entries, validKey e.1
  sorted : entries.Pairwise fun a b =>
    keyLt integerKey a.1 b.1 ∨ duplicates = true ∧ a.1 = b.1 ∧ a.2 < b.2

namespace KeyValueDb

/-- Where an operation moves a cursor. -/
def move (db : KeyValueDb) (op : CursorOp) (key : Option Bytes) (p : Position KeyVal) :
    Position KeyVal :=
  match op with
  | .setRange =>
    Position.seek (fun e => decide (∃ k ∈ key, keyLt db.integerKey e.1 k)) db.entries
  | .last => Position.last db.entries
  | .lastDup => p.lastDup (Position.sameKey Prod.fst)
  | .next => p.next
  | .nextNoDup => p.nextNoDup (Position.sameKey Prod.fst)
  | .prev => p.prev
  | .prevNoDup => p.prevNoDup (Position.sameKey Prod.fst)

/-- The entries with a key from `lower` to `upper`. -/
def between (db : KeyValueDb) (lower upper : Bytes) : List KeyVal :=
  db.entries.filter fun e =>
    !decide (keyLt db.integerKey e.1 lower) && !decide (keyLt db.integerKey upper e.1)

/-- What a range from one key to another one asks for: the entries between them in their order, or
from the last one to the first. -/
def range (db : KeyValueDb) (startKey endKey : Bytes) : List KeyVal :=
  if keyLt db.integerKey endKey startKey then (db.between endKey startKey).reverse
  else db.between startKey endKey

/-- The calls of which a cursor documents the answer: a lookup of a valid key and the move to the
last entry from anywhere, the other moves from where such a call has led, and `LAST_DUP` only on an
entry of a database with duplicates. `At` says where a cursor stands. -/
def Admits {σ : Type} (db : KeyValueDb) (At : σ → Position KeyVal → Prop) (op : CursorOp)
    (key : Option Bytes) (cursor : σ) (p : Position KeyVal) : Prop :=
  match op with
  | .setRange => ∃ k, key = some k ∧ db.validKey k
  | .last => key = none
  | .lastDup => key = none ∧ At cursor p ∧ db.duplicates = true ∧ ∃ e, p.entry = some e
  | .next | .nextNoDup | .prev | .prevNoDup => key = none ∧ At cursor p

/-- A key of another length than that of an integer is refused with `MDBX_BAD_VALSIZE`. -/
def Refuses {σ : Type} (db : KeyValueDb)
    (opGet : CursorOp → Option Bytes → σ → Result (Option KeyVal) × σ) : Prop :=
  db.integerKey = true → ∀ key cursor, key.length ≠ 4 → key.length ≠ 8 →
    (opGet .setRange (some key) cursor).1 = fail (.dbError (-30781) "MDBX_BAD_VALSIZE")

/-- A cursor that is its own position. -/
def listCursor (db : KeyValueDb) (op : CursorOp) (key : Option Bytes)
    (p : Position KeyVal) : Result (Option KeyVal) × Position KeyVal :=
  if db.integerKey = true ∧ op = .setRange ∧ ∃ k ∈ key, k.length ≠ 4 ∧ k.length ≠ 8 then
    (fail (.dbError (-30781) "MDBX_BAD_VALSIZE"), p)
  else (.ok (db.move op key p).entry, db.move op key p)

/-- The cursors of libmdbx answer with the entry that they have moved to. -/
structure Lawful {σ : Type} (db : KeyValueDb)
    (opGet : CursorOp → Option Bytes → σ → Result (Option KeyVal) × σ)
    (At : σ → Position KeyVal → Prop) : Prop where
  moves : ∀ op key cursor p, db.Admits At op key cursor p →
    ∃ cursor', opGet op key cursor = (.ok (db.move op key p).entry, cursor') ∧
      At cursor' (db.move op key p)
  refuses : db.Refuses opGet

end KeyValueDb

/-- A primary database as its cursors see it. -/
def primaryDb (objects : OrderedStore.SortedMap UInt64 Bytes) : KeyValueDb where
  integerKey := true
  duplicates := false
  validKey key := key.length = 8
  entries := objects.entries.map fun e => (leBytes 8 e.1.toNat, e.2)
  eightBytes _ _ valid := valid
  valid := by
    intro e mem
    obtain ⟨_, _, rfl⟩ := List.mem_map.mp mem
    exact length_leBytes 8 _
  sorted := by
    apply List.pairwise_map.mpr
    apply objects.sorted.imp
    intro a b below
    left
    show leNat (leBytes 8 a.1.toNat) < leNat (leBytes 8 b.1.toNat)
    have bound (key : UInt64) : key.toNat < 256 ^ 8 := key.toNat_lt
    rw [leNat_leBytes_of_lt (bound _), leNat_leBytes_of_lt (bound _)]
    exact below

end IsarPlus.Native
