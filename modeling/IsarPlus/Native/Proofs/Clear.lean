import IsarPlus.Native.Proofs.Entries
import IsarPlus.Native.SchemaManager
import Mathlib

/-!
# Clearing a collection

`clear` empties the databases of a collection. For detailed watchers it first walks through the
objects with a cursor whose lower bound is the empty key, which the primary database refuses.
-/

namespace IsarPlus.Native
open ByteBuffer OrderedStore

variable {xxh3_64 : Bytes → UInt64}

namespace NativeCollection

/-- What clearing a collection is to do: its objects and all index entries are gone, no other
collection has changed, and detailed watchers see every object as deleted. -/
structure Cleared (c : NativeCollection) (others : List NativeCollection) (txn txn' : NativeTxn) :
    Prop where
  objects : ∀ db, c.db = some db → txn'.primary db = .empty
  entries : ∀ index ∈ c.indexes, txn'.index index.db = .empty
  others : ∀ c' ∈ others, (∀ db, c'.db = some db → txn'.primary db = txn.primary db) ∧
    ∀ index ∈ c'.indexes, txn'.index index.db = txn.index index.db
  details : c.hasDetailedWatchers = true → ∀ db, c.db = some db →
    txn'.changeSet = txn.changeSet ++ .all c.name ::
      (txn.primary db).entries.map fun e => .detailed c.name (idOfKey e.1) (some e.2) none

/-- Another collection has nothing in the databases of this one. -/
def Apart (c c' : NativeCollection) (txn : NativeTxn) : Prop :=
  (∀ db, c.db = some db → c'.db = some db → txn.primary db = .empty) ∧
  ∀ index ∈ c.indexes, ∀ index' ∈ c'.indexes, index'.db = index.db → txn.index index.db = .empty

variable {c : NativeCollection} {txn txn' : NativeTxn}

/-- Clearing empties the databases of the collection, and no others. -/
theorem databases_of_clear {db : Db} (opened : c.db = some db)
    (h : c.clear xxh3_64 txn = .ok txn') :
    txn'.primary = Function.update txn.primary db .empty ∧
    ∀ db', txn'.index db' =
      if db' ∈ c.indexes.map NativeIndex.db then .empty else txn.index db' := by
  obtain ⟨db', opened', -, rfl⟩ := clear_eq_ok.mp h
  obtain rfl := Option.some.inj (opened.symm.trans opened')
  exact foldl_clear c.indexes ((txn.register (.all c.name)).clearPrimary db)

/-- A collection is cleared, and is so alone, exactly if it is stored, nobody watches its changes in
detail, and no other collection has something in its databases. -/
theorem clear_exact (xxh3_64 : Bytes → UInt64) (c : NativeCollection)
    (others : List NativeCollection) (txn : NativeTxn) :
    (∃ txn', c.clear xxh3_64 txn = .ok txn' ∧ c.Cleared others txn txn') ↔
      c.db.isSome ∧ c.hasDetailedWatchers = false ∧ ∀ c' ∈ others, c.Apart c' txn := by
  cases opened : c.db with
  | none =>
    apply iff_of_false
    · intro right
      obtain ⟨txn', h, -⟩ := right
      rw [clear, cursorDb, opened] at h
      cases h
    · intro conditions
      cases conditions.1
  | some db =>
    constructor
    · intro right
      obtain ⟨txn', h, cleared⟩ := right
      obtain ⟨primary, index⟩ := databases_of_clear opened h
      obtain ⟨-, -, plain, -⟩ := clear_eq_ok.mp h
      refine ⟨rfl, plain, ?_⟩
      intro c' mem
      obtain ⟨objects, entries⟩ := cleared.others c' mem
      constructor
      · intro db' eq eq'
        rw [← objects db' eq', primary, ← Option.some.inj (opened.symm.trans eq)]
        exact Function.update_self ..
      · intro i memI i' memI' same
        have kept := entries i' memI'
        rw [same, index, if_pos (List.mem_map_of_mem memI)] at kept
        exact kept.symm
    · intro conditions
      obtain ⟨-, plain, apart⟩ := conditions
      have h := (@clear_eq_ok xxh3_64 c txn _).mpr ⟨db, opened, plain, rfl⟩
      obtain ⟨primary, index⟩ := databases_of_clear opened h
      refine ⟨_, h, ?_, ?_, ?_, ?_⟩
      · intro db' eq
        rw [primary, ← Option.some.inj (opened.symm.trans eq)]
        exact Function.update_self ..
      · intro i mem
        rw [index, if_pos (List.mem_map_of_mem mem)]
      · intro c' mem
        obtain ⟨objects, entries⟩ := apart c' mem
        constructor
        · intro db' eq'
          rw [primary, Function.update_apply]
          split
          · rename_i same
            rw [objects db' (same ▸ opened) eq']
          · rfl
        · intro i' memI'
          rw [index]
          split
          · rename_i there
            obtain ⟨i, memI, same⟩ := List.mem_map.mp there
            rw [← same, entries i memI i' memI' same.symm]
          · rfl
      · intro detailed
        rw [plain] at detailed
        cases detailed

/-- A collection whose changes are watched in detail. -/
def watchedNotes : NativeCollection :=
  { NativeCollection.new 0 "Note" (some "id") [] [] (some "Note") with hasDetailedWatchers := true }

/-- A transaction that sees one note. -/
def noteTxn : NativeTxn where
  primary := fun _ => SortedMap.empty.insert (idKey 1) [3, 0, 0]
  index := fun _ => .empty
  autoIncrement := fun _ => 2
  changeSet := []

/-- A watched collection is not cleared. -/
theorem watchedNotes_not_cleared :
    ¬ ∃ txn', watchedNotes.clear (fun _ => 0) noteTxn = .ok txn' ∧
      watchedNotes.Cleared [] noteTxn txn' := by
  intro ⟨txn', h, _⟩
  obtain ⟨-, -, plain, -⟩ := clear_eq_ok.mp h
  cases plain

end NativeCollection

end IsarPlus.Native
