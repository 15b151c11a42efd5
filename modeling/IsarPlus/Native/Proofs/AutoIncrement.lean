import IsarPlus.Native.AutoIncrement
import IsarPlus.Native.Proofs.KeyOrder
import IsarPlus.Native.Proofs.Runs
import Mathlib

/-!
# Ids that are handed out

Every stored id but the greatest one is below the counter, and so is everything that was handed
out. The invariant breaks where the counter wraps, which only a step past the greatest id can do.
-/

namespace IsarPlus.Native
open ByteBuffer OrderedStore

/-! ## Ids and their keys -/

theorem toNat_idKey (id : Int64) : ((idKey id).toNat : Int) = id.toInt + 2 ^ 63 := int64_code id

theorem toInt_idOfKey (key : UInt64) : (idOfKey key).toInt = (key.toNat : Int) - 2 ^ 63 := by
  have code := toNat_idKey (idOfKey key)
  rw [idKey_idOfKey] at code
  omega

theorem toInt_succ {id : Int64} (h : id ≠ Int64.maxValue) : (id + 1).toInt = id.toInt + 1 := by
  have below : id.toInt ≠ 2 ^ 63 - 1 := fun same => h (Int64.toInt_inj.mp same)
  have lower := id.le_toInt
  have upper := id.toInt_lt
  rw [Int64.toInt_add, Int64.toInt_one, Int.bmod_eq_of_le (by omega) (by omega)]

theorem lt_succ_iff {id id' : Int64} (h : id' ≠ Int64.maxValue) : id < id' + 1 ↔ id ≤ id' := by
  rw [Int64.lt_iff_toInt_lt, Int64.le_iff_toInt_le, toInt_succ h]
  omega

theorem int64_max_eq (counter id : Int64) :
    max counter id = if counter ≤ id then id else counter := rfl

theorem left_le_max (counter id : Int64) : counter ≤ max counter id := by
  rw [int64_max_eq]
  split
  · assumption
  · exact Int64.le_refl counter

theorem right_le_max (counter id : Int64) : id ≤ max counter id := by
  rw [int64_max_eq]
  split
  · exact Int64.le_refl id
  · exact Int64.le_of_lt (Int64.not_le.mp ‹_›)

theorem nullLong_le (id : Int64) : nullLong ≤ id := Int64.minValue_le id

/-- The last key of a map is its greatest. -/
theorem find_le_getLast {objects : SortedMap UInt64 Bytes} {last : UInt64 × Bytes}
    (at_end : objects.entries.getLast? = some last) {key : UInt64}
    (stored : (objects.find key).isSome = true) : key ≤ last.1 := by
  obtain ⟨bytes, found⟩ := Option.isSome_iff_exists.mp stored
  obtain ⟨front, split⟩ := List.getLast?_eq_some_iff.mp at_end
  have listed : (key, bytes) ∈ objects.entries := SortedMap.mem_entries.mpr found
  have sorted := objects.sorted
  rw [split] at listed sorted
  rcases List.mem_append.mp listed with inside | at_last
  · exact le_of_lt ((List.pairwise_append.mp sorted).2.2 _ inside _ (List.mem_singleton_self _))
  · rw [← List.mem_singleton.mp at_last]

theorem stored_getLast {objects : SortedMap UInt64 Bytes} {last : UInt64 × Bytes}
    (at_end : objects.entries.getLast? = some last) : Stored objects (idOfKey last.1) := by
  have listed : (last.1, last.2) ∈ objects.entries := List.mem_of_getLast? at_end
  rw [Stored, idKey_idOfKey, SortedMap.mem_entries.mp listed]
  rfl

theorem stored_empty (id : Int64) : ¬ Stored .empty id := by
  simp [Stored]

theorem stored_insert {objects : SortedMap UInt64 Bytes} {id id' : Int64} {bytes : Bytes} :
    Stored (objects.insert (idKey id) bytes) id' ↔ id' = id ∨ Stored objects id' := by
  rw [Stored, SortedMap.find_insert]
  by_cases same : id' = id
  · simp [same]
  · have differ : idKey id' ≠ idKey id := fun h => same (idKey_injective h)
    simp [same, differ, Stored]

theorem stored_of_erase {objects : SortedMap UInt64 Bytes} {key : UInt64} {id : Int64}
    (stored : Stored (objects.erase key) id) : Stored objects id := by
  rw [Stored, SortedMap.find_erase] at stored
  split at stored
  · simp at stored
  · exact stored

namespace AutoIncrement

/-! ## The counter at the opening -/

theorem initAutoIncrement_of_getLast {objects : SortedMap UInt64 Bytes} {last : UInt64 × Bytes}
    (at_end : objects.entries.getLast? = some last) :
    initAutoIncrement objects = idOfKey last.1 + 1 := by
  simp only [initAutoIncrement, at_end]

theorem initAutoIncrement_of_empty {objects : SortedMap UInt64 Bytes}
    (at_end : objects.entries.getLast? = none) : initAutoIncrement objects = 1 := by
  simp only [initAutoIncrement, at_end]

theorem stored_le_last {objects : SortedMap UInt64 Bytes} {last : UInt64 × Bytes} {id : Int64}
    (at_end : objects.entries.getLast? = some last) (stored : Stored objects id) :
    id ≤ idOfKey last.1 := by
  have below := find_le_getLast at_end stored
  rw [Int64.le_iff_toInt_le, toInt_idOfKey]
  have code := toNat_idKey id
  have := UInt64.le_iff_toNat_le.mp below
  omega

/-- A counter that is read from the last key is above every id, unless that is the greatest one. -/
theorem lt_initAutoIncrement {objects : SortedMap UInt64 Bytes}
    (below : ¬ Stored objects Int64.maxValue) {id : Int64} (stored : Stored objects id) :
    id < initAutoIncrement objects := by
  cases at_end : objects.entries.getLast? with
  | none =>
    obtain ⟨bytes, found⟩ := Option.isSome_iff_exists.mp stored
    have listed := SortedMap.mem_entries.mpr found
    rw [List.getLast?_eq_none_iff.mp at_end] at listed
    exact absurd listed List.not_mem_nil
  | some last =>
    have differ : idOfKey last.1 ≠ Int64.maxValue := fun same => below (same ▸ stored_getLast at_end)
    rw [initAutoIncrement_of_getLast at_end, lt_succ_iff differ]
    exact stored_le_last at_end stored

theorem null_lt_initAutoIncrement {objects : SortedMap UInt64 Bytes}
    (below : ¬ Stored objects Int64.maxValue) : nullLong < initAutoIncrement objects := by
  cases at_end : objects.entries.getLast? with
  | none =>
    rw [initAutoIncrement_of_empty at_end]
    decide
  | some last =>
    exact Int64.lt_of_le_of_lt (nullLong_le _) (lt_initAutoIncrement below (stored_getLast at_end))

/-! ## The invariant -/

/-- The id is below the counter, or the greatest one. -/
def Behind (counter id : Int64) : Prop := id < counter ∨ id = Int64.maxValue

theorem Behind.mono {counter counter' id : Int64} (le : counter ≤ counter')
    (behind : Behind counter id) : Behind counter' id :=
  behind.imp_left fun lt => Int64.lt_of_lt_of_le lt le

theorem behind_raised (counter id : Int64) : Behind (max counter (id + 1)) id := by
  by_cases greatest : id = Int64.maxValue
  · exact Or.inr greatest
  · have succ : id < id + 1 := (lt_succ_iff greatest).mpr (Int64.le_refl id)
    exact Or.inl (Int64.lt_of_lt_of_le succ (right_le_max counter (id + 1)))

/-- The counter is ahead of all ids that are in use or were handed out. -/
structure Session.Ahead (committed : SortedMap UInt64 Bytes) (session : Session) : Prop where
  taken : ∀ id, session.Taken committed id → Behind session.counter id
  raised : ∀ writing id, session.writing = some writing → writing.raised = some id →
    Behind session.counter id
  returned : ∀ id ∈ session.returned, id < session.counter
  null : nullLong < session.counter

def State.Ahead (s : State) : Prop :=
  ∀ session, s.session = some session → session.Ahead s.committed

/-- What a step does to a database that stays open. All but taking a number keep what was handed
out; an id that is new to the objects is that of a put which has raised the counter. -/
theorem Session.step_spec {committed committed' : SortedMap UInt64 Bytes}
    {session session' : Session} {action : Action}
    (h : session.step committed action = some ⟨committed', some session'⟩) :
    (action = .autoIncrement ∧ committed' = committed ∧ session' = { session with
      counter := session.counter + 1, returned := session.counter :: session.returned }) ∨
    session.counter ≤ session'.counter ∧ session'.returned = session.returned ∧
    (∀ id, session'.Taken committed' id → session.Taken committed id ∨
      ∃ writing, session.writing = some writing ∧ writing.raised = some id) ∧
    ∀ writing id, session'.writing = some writing → writing.raised = some id →
      session.writing = some writing ∨ Behind session'.counter id := by
  cases action with
  | openInstance =>
    simp only [Session.step, Option.some.injEq, State.mk.injEq] at h
    obtain ⟨rfl, rfl⟩ := h
    exact Or.inr ⟨Int64.le_refl _, rfl, fun id used => Or.inl used,
      fun writing id is_writing _ => Or.inl is_writing⟩
  | closeInstance => simp [Session.step] at h
  | autoIncrement =>
    simp only [Session.step, Option.some.injEq, State.mk.injEq] at h
    obtain ⟨rfl, rfl⟩ := h
    exact Or.inl ⟨rfl, rfl, rfl⟩
  | begin =>
    simp only [Session.step] at h
    split at h
    · simp only [Option.some.injEq, State.mk.injEq] at h
      obtain ⟨rfl, rfl⟩ := h
      refine Or.inr ⟨Int64.le_refl _, rfl, ?_, ?_⟩
      · rintro id (used | ⟨_, ⟨⟩, used⟩)
        · exact Or.inl (Or.inl used)
        · exact Or.inl (Or.inl used)
      · rintro _ id ⟨⟩ ⟨⟩
    · cases h
  | raise id =>
    simp only [Session.step, Option.map_eq_some_iff, State.mk.injEq, Option.some.injEq] at h
    obtain ⟨writing, is_writing, rfl, rfl⟩ := h
    refine Or.inr ⟨left_le_max session.counter (id + 1), rfl, ?_, ?_⟩
    · rintro id' (used | ⟨_, ⟨⟩, used⟩)
      · exact Or.inl (Or.inl used)
      · exact Or.inl (Or.inr ⟨writing, is_writing, used⟩)
    · rintro _ id' ⟨⟩ ⟨⟩
      exact Or.inr (behind_raised session.counter id)
  | store bytes =>
    simp only [Session.step, Option.bind_eq_bind, Option.bind_eq_some_iff, Option.pure_def,
      State.mk.injEq, Option.some.injEq] at h
    obtain ⟨writing, is_writing, id, is_raised, rfl, rfl⟩ := h
    refine Or.inr ⟨Int64.le_refl _, rfl, ?_, ?_⟩
    · rintro id' (used | ⟨_, ⟨⟩, used⟩)
      · exact Or.inl (Or.inl used)
      · rcases stored_insert.mp used with rfl | used
        · exact Or.inr ⟨writing, is_writing, is_raised⟩
        · exact Or.inl (Or.inr ⟨writing, is_writing, used⟩)
    · rintro _ id' ⟨⟩ ⟨⟩
  | delete id =>
    simp only [Session.step, Option.map_eq_some_iff, State.mk.injEq, Option.some.injEq] at h
    obtain ⟨writing, is_writing, rfl, rfl⟩ := h
    refine Or.inr ⟨Int64.le_refl _, rfl, ?_, ?_⟩
    · rintro id' (used | ⟨_, ⟨⟩, used⟩)
      · exact Or.inl (Or.inl used)
      · exact Or.inl (Or.inr ⟨writing, is_writing, stored_of_erase used⟩)
    · rintro _ id' ⟨⟩ ⟨⟩
  | clear =>
    simp only [Session.step, Option.map_eq_some_iff, State.mk.injEq, Option.some.injEq] at h
    obtain ⟨writing, is_writing, rfl, rfl⟩ := h
    refine Or.inr ⟨Int64.le_refl _, rfl, ?_, ?_⟩
    · rintro id' (used | ⟨_, ⟨⟩, used⟩)
      · exact Or.inl (Or.inl used)
      · exact absurd used (stored_empty id')
    · rintro _ id' ⟨⟩ ⟨⟩
  | commit =>
    simp only [Session.step, Option.map_eq_some_iff, State.mk.injEq, Option.some.injEq] at h
    obtain ⟨writing, is_writing, rfl, rfl⟩ := h
    refine Or.inr ⟨Int64.le_refl _, rfl, ?_, ?_⟩
    · rintro id' (used | ⟨_, ⟨⟩, _⟩)
      exact Or.inl (Or.inr ⟨writing, is_writing, used⟩)
    · rintro _ id' ⟨⟩ _
  | abort =>
    simp only [Session.step, Option.map_eq_some_iff, State.mk.injEq, Option.some.injEq] at h
    obtain ⟨writing, is_writing, rfl, rfl⟩ := h
    refine Or.inr ⟨Int64.le_refl _, rfl, ?_, ?_⟩
    · rintro id' (used | ⟨_, ⟨⟩, _⟩)
      exact Or.inl (Or.inl used)
    · rintro _ id' ⟨⟩ _

/-- Taking a number keeps the counter ahead, unless the number is the greatest id. -/
theorem Session.Ahead.increment {committed : SortedMap UInt64 Bytes} {session : Session}
    (ahead : session.Ahead committed) (below : session.counter ≠ Int64.maxValue) :
    Session.Ahead committed { session with
      counter := session.counter + 1, returned := session.counter :: session.returned } := by
  have grown : session.counter < session.counter + 1 := (lt_succ_iff below).mpr (Int64.le_refl _)
  have le := Int64.le_of_lt grown
  refine ⟨fun id used => (ahead.taken id used).mono le,
    fun writing id is_writing is_raised => (ahead.raised writing id is_writing is_raised).mono le,
    ?_, Int64.lt_of_lt_of_le ahead.null le⟩
  intro id given
  rcases List.mem_cons.mp given with rfl | given
  · exact grown
  · exact Int64.lt_of_lt_of_le (ahead.returned id given) le

theorem Session.Ahead.step {committed committed' : SortedMap UInt64 Bytes}
    {session session' : Session} {action : Action} (ahead : session.Ahead committed)
    (below : action = .autoIncrement → session.counter ≠ Int64.maxValue)
    (h : session.step committed action = some ⟨committed', some session'⟩) :
    session'.Ahead committed' := by
  rcases Session.step_spec h with ⟨number, rfl, rfl⟩ | ⟨le, returned, taken, raised⟩
  · exact ahead.increment (below number)
  · refine ⟨?_, ?_, ?_, Int64.lt_of_lt_of_le ahead.null le⟩
    · intro id used
      rcases taken id used with used | ⟨writing, is_writing, is_raised⟩
      · exact (ahead.taken id used).mono le
      · exact (ahead.raised writing id is_writing is_raised).mono le
    · intro writing id is_writing is_raised
      rcases raised writing id is_writing is_raised with is_writing | behind
      · exact (ahead.raised writing id is_writing is_raised).mono le
      · exact behind
    · intro id given
      rw [returned] at given
      exact Int64.lt_of_lt_of_le (ahead.returned id given) le

/-- A closed database can only be opened. -/
theorem step_closed {committed : SortedMap UInt64 Bytes} {action : Action} {s' : State}
    (h : Step ⟨committed, none⟩ action s') :
    action = .openInstance ∧ s' = ⟨committed, some ⟨initAutoIncrement committed, [], none⟩⟩ := by
  cases action with
  | openInstance => exact ⟨rfl, (Option.some_inj.mp h).symm⟩
  | _ => cases h

theorem ahead_opened {committed : SortedMap UInt64 Bytes}
    (below : ¬ Stored committed Int64.maxValue) :
    Session.Ahead committed ⟨initAutoIncrement committed, [], none⟩ where
  taken := by
    rintro id (used | ⟨_, ⟨⟩, _⟩)
    exact Or.inl (lt_initAutoIncrement below used)
  raised := by
    rintro _ id ⟨⟩ _
  returned := by
    intro id given
    cases given
  null := null_lt_initAutoIncrement below

theorem State.Ahead.step {s s' : State} {action : Action} (ahead : s.Ahead)
    (below : BelowGreatest s action) (h : Step s action s') : s'.Ahead := by
  obtain ⟨committed, _ | session⟩ := s
  · obtain ⟨rfl, rfl⟩ := step_closed h
    intro session' is
    obtain rfl := Option.some_inj.mp is
    exact ahead_opened (below rfl)
  · obtain ⟨committed', _ | session'⟩ := s'
    · rintro session' ⟨⟩
    · rintro _ ⟨⟩
      apply (ahead session rfl).step _ h
      rintro rfl
      exact below session rfl

/-! ## What a step promises -/

/-- The greatest id makes the counter of a database that is opened with it the null of ids. -/
theorem initAutoIncrement_of_greatest {objects : SortedMap UInt64 Bytes}
    (stored : Stored objects Int64.maxValue) : initAutoIncrement objects = nullLong := by
  cases at_end : objects.entries.getLast? with
  | none =>
    obtain ⟨bytes, found⟩ := Option.isSome_iff_exists.mp stored
    have listed := SortedMap.mem_entries.mpr found
    rw [List.getLast?_eq_none_iff.mp at_end] at listed
    exact absurd listed List.not_mem_nil
  | some last =>
    have greatest : idOfKey last.1 = Int64.maxValue := by
      have upper := (idOfKey last.1).toInt_lt
      have least := Int64.le_iff_toInt_le.mp (stored_le_last at_end stored)
      rw [Int64.toInt_maxValue] at least
      exact Int64.toInt_inj.mp (by rw [Int64.toInt_maxValue]; omega)
    rw [initAutoIncrement_of_getLast at_end, greatest]
    rfl

/-- From a counter that is ahead, a step keeps its promise exactly if it stays below the greatest
id. -/
theorem promised_iff {s s' : State} {action : Action} (ahead : s.Ahead) (h : Step s action s') :
    Promised s action s' ↔ BelowGreatest s action := by
  obtain ⟨committed, _ | session⟩ := s
  · obtain ⟨rfl, rfl⟩ := step_closed h
    constructor
    · rintro ⟨-, grows⟩ _ stored
      have lt := grows _ stored
      rw [initAutoIncrement_of_greatest stored] at lt
      exact absurd lt (by decide)
    · intro below
      refine ⟨?_, fun id stored => lt_initAutoIncrement (below rfl) stored⟩
      rintro ⟨⟩
  · obtain ⟨taken, raised, returned, null⟩ := ahead session rfl
    constructor
    · rintro ⟨-, grows⟩
      cases action with
      | autoIncrement =>
        rintro _ ⟨⟩ greatest
        obtain rfl := Option.some_inj.mp h
        have le : session.counter ≤ session.counter + 1 := grows
        rw [greatest] at le
        exact absurd le (by decide)
      | openInstance => rintro ⟨⟩
      | _ => trivial
    · intro below
      constructor
      · rintro rfl _ ⟨⟩
        refine ⟨fun used => ?_, fun given => Int64.lt_irrefl (returned _ given), ?_⟩
        · rcases taken _ used with lt | greatest
          · exact Int64.lt_irrefl lt
          · exact below session rfl greatest
        · rintro is_null
          rw [is_null] at null
          exact Int64.lt_irrefl null
      · obtain ⟨committed', _ | session'⟩ := s'
        · trivial
        · show session.counter ≤ session'.counter
          rcases Session.step_spec h with ⟨rfl, rfl, rfl⟩ | ⟨le, _⟩
          · exact Int64.le_of_lt ((lt_succ_iff (below session rfl)).mpr (Int64.le_refl _))
          · exact le

/-- A run from a closed database keeps its promises exactly if no step goes past the greatest id. -/
theorem autoIncrement_exact (committed : SortedMap UInt64 Bytes) (actions : List Action)
    (s : State) :
    Run (fun s action s' => Step s action s' ∧ Promised s action s') ⟨committed, none⟩ actions s ↔
      Run (fun s action s' => Step s action s' ∧ BelowGreatest s action) ⟨committed, none⟩ actions
        s := by
  have closed : State.Ahead ⟨committed, none⟩ := by
    rintro session ⟨⟩
  refine (Run.iff_of_same ?_ ?_ closed).symm
  · intro s action s' ahead
    exact and_congr_right fun h => (promised_iff ahead h).symm
  · rintro s action s' ahead ⟨h, below⟩
    exact ahead.step below h

/-- With the two greatest ids in use, the next number is the greatest id. -/
theorem used_id_handed_out : ¬ ∀ actions s action s', Run Step ⟨.empty, none⟩ actions s →
    Step s action s' → Promised s action s' := by
  intro all
  have promised := all [.openInstance, .begin, .raise (Int64.maxValue - 1), .store [],
    .raise Int64.maxValue, .store [], .commit] _ .autoIncrement _
    (.cons rfl (.cons rfl (.cons rfl (.cons rfl (.cons rfl (.cons rfl (.cons rfl .nil))))))) rfl
  exact (promised.1 rfl _ rfl).1 (Or.inl (by decide))

/-! ## The operations of a collection -/

variable {xxh3_64 : Bytes → UInt64}

theorem deleteEntries_frame {c : NativeCollection} {txn txn' : NativeTxn} {id : Int64}
    {object : IsarDeserializer} (h : c.deleteEntries xxh3_64 txn id object = .ok txn') :
    txn'.primary = txn.primary ∧ txn'.autoIncrement = txn.autoIncrement := by
  rw [NativeCollection.deleteEntries] at h
  generalize c.indexes = indexes at h
  induction indexes generalizing txn with
  | nil =>
    obtain rfl := pure_eq_ok.mp h
    exact ⟨rfl, rfl⟩
  | cons index indexes ih =>
    simp only [List.foldlM_cons, bind_eq_ok] at h
    obtain ⟨txn₁, first, h⟩ := h
    obtain ⟨key, containsNull, -, rfl⟩ := NativeIndex.deleteForObject_spec first
    obtain ⟨primary, autoIncrement⟩ := ih h
    exact ⟨primary, autoIncrement⟩

theorem ofTxn_congr {committed : SortedMap UInt64 Bytes} {returned : List Int64}
    {c : NativeCollection} {db : Db} {txn txn' : NativeTxn} (primary : txn'.primary = txn.primary)
    (autoIncrement : txn'.autoIncrement = txn.autoIncrement) :
    State.ofTxn committed returned c db txn' = State.ofTxn committed returned c db txn := by
  rw [State.ofTxn, State.ofTxn, primary, autoIncrement]

section
variable (committed : SortedMap UInt64 Bytes) (returned : List Int64) {c : NativeCollection}
  {db : Db} (hdb : c.db = some db)
include hdb

/-- `delete` takes its object away, if there is one. -/
theorem delete_run {txn txn' : NativeTxn} {id : Int64} {found : Bool}
    (h : c.delete xxh3_64 txn id = .ok (txn', found)) :
    ∃ deleted : List Int64, Run Step (.ofTxn committed returned c db txn)
      (deleted.map .delete) (.ofTxn committed returned c db txn') := by
  simp only [NativeCollection.delete, bind_eq_ok, NativeCollection.cursorDb_eq_ok, hdb,
    Option.some.injEq, exists_eq_left'] at h
  split at h
  · rename_i bytes _
    simp only [bind_eq_ok, orPanic_eq_ok, pure_eq_ok, Prod.mk.injEq] at h
    obtain ⟨object, -, txn₁, removed, rfl, -⟩ := h
    obtain ⟨primary, autoIncrement⟩ := deleteEntries_frame removed
    rw [NativeCollection.primary_registerDetailed] at primary
    refine ⟨[id], .cons ?_ .nil⟩
    have counter : txn₁.autoIncrement = txn.autoIncrement := by
      rw [autoIncrement, NativeCollection.registerDetailed]
      split <;> rfl
    simp [Step, step, Session.step, State.ofTxn, NativeTxn.deleteObject, primary, counter,
      NativeTxn.register]
  · simp only [pure_eq_ok, Prod.mk.injEq] at h
    obtain ⟨rfl, -⟩ := h
    exact ⟨[], .nil⟩

theorem createEntries_run {txn txn' : NativeTxn} {id : Int64} {object : IsarDeserializer}
    (h : c.createEntries xxh3_64 txn id object = .ok txn') :
    ∃ deleted : List Int64, Run Step (.ofTxn committed returned c db txn)
      (deleted.map .delete) (.ofTxn committed returned c db txn') := by
  rw [NativeCollection.createEntries] at h
  generalize c.indexes = indexes at h
  induction indexes generalizing txn with
  | nil =>
    obtain rfl := pure_eq_ok.mp h
    exact ⟨[], .nil⟩
  | cons index indexes ih =>
    simp only [List.foldlM_cons, NativeIndex.createForObject, NativeIndex.deleteConflict,
      bind_eq_ok, orPanic_eq_ok, pure_eq_ok] at h
    obtain ⟨_, ⟨⟨key, containsNull⟩, -, txn₁, evicted, rfl⟩, h⟩ := h
    obtain ⟨rest, run⟩ := ih h
    suffices ∃ deleted : List Int64, Run Step (.ofTxn committed returned c db txn)
        (deleted.map .delete) (.ofTxn committed returned c db txn₁) by
      obtain ⟨deleted, first⟩ := this
      refine ⟨deleted ++ rest, ?_⟩
      rw [List.map_append]
      exact first.append run
    split at evicted
    · split at evicted
      · simp only [bind_eq_ok, map_eq_ok] at evicted
        obtain ⟨conflict, -, ⟨_, found⟩, deleted, rfl⟩ := evicted
        exact delete_run committed returned hdb deleted
      · obtain rfl := pure_eq_ok.mp evicted
        exact ⟨[], .nil⟩
    · obtain rfl := pure_eq_ok.mp evicted
      exact ⟨[], .nil⟩

/-- `put` deletes what its object replaces, raises the counter and then stores the object. -/
theorem put_run {txn txn' : NativeTxn} {id : Int64} {bytes : Bytes}
    (h : c.put xxh3_64 txn id bytes = .ok txn') :
    ∃ deleted : List Int64, Run Step (.ofTxn committed returned c db txn)
      (deleted.map .delete ++ [.raise id, .store bytes]) (.ofTxn committed returned c db txn') := by
  simp only [NativeCollection.put, bind_eq_ok, NativeCollection.cursorDb_eq_ok, hdb,
    Option.some.injEq, exists_eq_left', orPanic_eq_ok, pure_eq_ok] at h
  obtain ⟨txn₁, removed, object, -, txn₂, created, rfl⟩ := h
  obtain ⟨deleted, run⟩ := createEntries_run committed returned hdb created
  have start : State.ofTxn committed returned c db (c.registerDetailed
      (txn₁.register (.object c.name id bytes)) id (c.oldObject txn db id) (some bytes)) =
        State.ofTxn committed returned c db txn := by
    have old : txn₁.primary = txn.primary ∧ txn₁.autoIncrement = txn.autoIncrement := by
      generalize c.oldObject txn db id = oldObject at removed
      cases oldObject with
      | none =>
        obtain rfl := pure_eq_ok.mp removed
        exact ⟨rfl, rfl⟩
      | some oldBytes =>
        simp only [NativeCollection.deleteOldEntries, bind_eq_ok] at removed
        obtain ⟨oldObject, -, removed⟩ := removed
        exact deleteEntries_frame removed
    apply ofTxn_congr
    · rw [NativeCollection.primary_registerDetailed]
      exact old.1
    · rw [NativeCollection.registerDetailed]
      split <;> exact old.2
  rw [start] at run
  refine ⟨deleted, run.append (.cons rfl (.cons ?_ .nil))⟩
  simp [Step, step, Session.step, State.ofTxn, NativeTxn.putObject,
    NativeCollection.updateAutoIncrement]

theorem clear_run {txn txn' : NativeTxn} (h : c.clear xxh3_64 txn = .ok txn') :
    Run Step (.ofTxn committed returned c db txn) [.clear]
      (.ofTxn committed returned c db txn') := by
  obtain ⟨db', opened, -, rfl⟩ := NativeCollection.clear_eq_ok.mp h
  obtain rfl := Option.some.inj (hdb.symm.trans opened)
  have counter : ∀ (indexes : List NativeIndex) (txn : NativeTxn),
      (indexes.foldl (fun txn index => index.clear txn) txn).autoIncrement =
        txn.autoIncrement := by
    intro indexes
    induction indexes with
    | nil => exact fun _ => rfl
    | cons index indexes ih => exact fun txn => ih (index.clear txn)
  refine .cons ?_ .nil
  simp [Step, step, Session.step, State.ofTxn, (NativeCollection.foldl_clear _ _).1, counter,
    NativeTxn.clearPrimary, NativeTxn.register]

/-- The operations of a transaction are runs of these steps, so that a number can be taken between
any two of them. -/
theorem operations_run {txn txn' : NativeTxn} {operations : List Operation}
    (h : c.run xxh3_64 txn operations = .ok txn') :
    ∃ actions, Run Step (.ofTxn committed returned c db txn) actions
      (.ofTxn committed returned c db txn') := by
  have preserved : NativeCollection.Preserved xxh3_64 c (fun _ _ _ => True) fun txn' =>
      ∃ actions, Run Step (.ofTxn committed returned c db txn) actions
        (.ofTxn committed returned c db txn') := by
    refine ⟨?_, ?_, ?_⟩
    · rintro _ _ id bytes ⟨actions, run⟩ - put
      obtain ⟨deleted, rest⟩ := put_run committed returned hdb put
      exact ⟨_, run.append rest⟩
    · rintro _ _ id found ⟨actions, run⟩ deleted
      obtain ⟨deleted, rest⟩ := delete_run committed returned hdb deleted
      exact ⟨_, run.append rest⟩
    · rintro _ _ ⟨actions, run⟩ cleared
      exact ⟨_, run.append (clear_run committed returned hdb cleared)⟩
  exact preserved.run ⟨[], .nil⟩
    (NativeCollection.meets_of_forall (fun _ _ _ => trivial) txn operations) h

end

end AutoIncrement

end IsarPlus.Native
