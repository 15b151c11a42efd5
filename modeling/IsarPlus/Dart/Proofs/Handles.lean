import IsarPlus.Dart.Isar

/-!
# Who frees a handle

Transactions and inserts change hands in order, whatever fails or throws, except at a commit that
returns an error: `write` then aborts the transaction that the commit has freed. An update is freed
with its first id, and a second id passes it again. Programs that meet neither pass no handle after
it was consumed, and all others do.
-/

namespace IsarPlus.Dart
open Ownership

/-- The calls made so far are in order, and pass pointers that were handed out. -/
structure Sound (allocated : Nat) (calls : List FfiCall) : Prop where
  owned : Owned FfiCall.passed FfiCall.consumed calls
  known : ∀ c ∈ calls, ∀ p ∈ c.passed, p < allocated

theorem FfiCall.passed_of_consumed {c : FfiCall} {p : Pointer} (mem : p ∈ c.consumed) :
    p ∈ c.passed := by
  cases c <;> simp_all [FfiCall.consumed, FfiCall.passed]

namespace Isar

abbrev Sound (s : Isar) : Prop := Dart.Sound s.allocated s.calls

/-- A pointer that was handed out and not freed. -/
def Live (s : Isar) (p : Pointer) : Prop :=
  p < s.allocated ∧ Ownership.Live FfiCall.consumed s.calls p

/-- The transaction that the instance holds is live. -/
structure Orderly (s : Isar) : Prop where
  sound : s.Sound
  held : ∀ txn, s.txnPtr = some txn → s.Live txn

/-! ## Single calls -/

theorem Live.call {s : Isar} {p : Pointer} {c : FfiCall} (live : s.Live p)
    (kept : p ∉ c.consumed) : (s.call c).Live p :=
  ⟨live.1, live_append.mpr ⟨live.2, kept⟩⟩

theorem sound_call {s : Isar} {c : FfiCall} (sound : s.Sound) (live : ∀ p ∈ c.passed, s.Live p) :
    (s.call c).Sound := by
  constructor
  · exact owned_append.mpr ⟨sound.owned, fun p mem => (live p mem).2⟩
  · intro c' mem p passed
    rcases List.mem_append.mp mem with old | new
    · exact sound.known c' old p passed
    · obtain rfl := List.mem_singleton.mp new
      exact (live p passed).1

/-- A call passes live handles and does not free the transaction that is held. -/
theorem Orderly.call {s : Isar} {c : FfiCall} (orderly : s.Orderly)
    (live : ∀ p ∈ c.passed, s.Live p) (kept : ∀ txn, s.txnPtr = some txn → txn ∉ c.consumed) :
    (s.call c).Orderly :=
  ⟨sound_call orderly.sound live, fun txn held => (orderly.held txn held).call (kept txn held)⟩

theorem Orderly.checked {s : Isar} {c : FfiCall} (orderly : s.Orderly)
    (live : ∀ p ∈ c.passed, s.Live p) (kept : ∀ txn, s.txnPtr = some txn → txn ∉ c.consumed) :
    (s.checked c).2.Orderly :=
  have called := orderly.call live kept
  ⟨called.sound, called.held⟩

/-- The new pointer is none of the live ones. -/
theorem allocate_spec {s : Isar} (orderly : s.Orderly) :
    s.allocate.2.Orderly ∧ s.allocate.2.Live s.allocate.1 ∧
    ∀ p, s.Live p → s.allocate.2.Live p ∧ p ≠ s.allocate.1 := by
  have later : ∀ {p : Pointer}, p < s.allocated → p < s.allocated + 1 :=
    fun earlier => Nat.lt_succ_of_lt earlier
  refine ⟨⟨⟨orderly.sound.owned, ?_⟩, ?_⟩, ⟨Nat.lt_succ_self _, ?_⟩, ?_⟩
  · intro c mem p passed
    exact later (orderly.sound.known c mem p passed)
  · intro txn held
    exact ⟨later (orderly.held txn held).1, (orderly.held txn held).2⟩
  · intro c mem consumed
    exact Nat.lt_irrefl _ (orderly.sound.known c mem _ (FfiCall.passed_of_consumed consumed))
  · intro p live
    exact ⟨⟨later live.1, live.2⟩, Nat.ne_of_lt live.1⟩

/-- A call that hands out a pointer. -/
theorem obtained_spec {s : Isar} {c : FfiCall} (orderly : s.Orderly)
    (live : ∀ p ∈ c.passed, s.Live p) (kept : ∀ txn, s.txnPtr = some txn → txn ∉ c.consumed) :
    (s.obtained c).2.Orderly ∧ (s.obtained c).2.txnPtr = s.txnPtr ∧
    ∀ p, (s.obtained c).1 = some p → (s.obtained c).2.Live p := by
  have checked := orderly.checked live kept
  cases fails : s.fails with
  | true =>
    have eq : s.obtained c = (none, (s.checked c).2) := by simp [obtained, Isar.checked, fails]
    rw [eq]
    exact ⟨checked, rfl, by simp⟩
  | false =>
    have eq : s.obtained c =
        (some (s.checked c).2.allocate.1, (s.checked c).2.allocate.2) := by
      simp [obtained, Isar.checked, fails]
    obtain ⟨allocated, new, -⟩ := allocate_spec checked
    rw [eq]
    refine ⟨allocated, rfl, ?_⟩
    intro p some
    cases some
    exact new

/-! ## Transactions -/

theorem Orderly.release {s : Isar} (orderly : s.Orderly) : { s with txnPtr := none }.Orderly :=
  ⟨orderly.sound, fun txn held => by cases held⟩

theorem Orderly.hold {s : Isar} (orderly : s.Orderly) {txn : Pointer} (live : s.Live txn)
    (write : Bool) : { s with txnPtr := some txn, txnWrite := write }.Orderly := by
  refine ⟨orderly.sound, fun txn' held => ?_⟩
  cases held
  exact live

theorem Orderly.begin {s s' : Isar} {txn : Pointer} {write : Bool} (orderly : s.Orderly)
    (begun : s.obtained (.txnBegin write) = (some txn, s')) :
    { s' with txnPtr := some txn, txnWrite := write }.Orderly := by
  obtain ⟨orderly', -, new⟩ := obtained_spec (c := .txnBegin write) orderly
    (by simp [FfiCall.passed]) (by simp [FfiCall.consumed])
  rw [begun] at orderly' new
  exact orderly'.hold (new txn rfl) write

theorem Orderly.begin_failed {s s' : Isar} {write : Bool} (orderly : s.Orderly)
    (failed : s.obtained (.txnBegin write) = (none, s')) : s'.Orderly := by
  obtain ⟨orderly', -, -⟩ := obtained_spec (c := .txnBegin write) orderly
    (by simp [FfiCall.passed]) (by simp [FfiCall.consumed])
  rw [failed] at orderly'
  exact orderly'

/-- A transaction that the instance lets go of is aborted. -/
theorem Orderly.drop {s : Isar} (orderly : s.Orderly) : { s.abort with txnPtr := none }.Orderly := by
  refine ⟨?_, fun txn held => by cases held⟩
  unfold abort
  split
  · rename_i txn held
    apply sound_call orderly.sound
    intro p mem
    obtain rfl := List.mem_singleton.mp mem
    exact orderly.held p held
  · exact orderly.sound

theorem orderly_read {callback : Isar → Ended} {s : Isar} (orderly : s.Orderly)
    (inside : ∀ txn s', s.txnPtr = none → s.obtained (.txnBegin false) = (some txn, s') →
      (callback { s' with txnPtr := some txn, txnWrite := false }).2.Orderly) :
    (s.read callback).2.Orderly := by
  unfold read
  split
  · exact orderly
  · rename_i free
    have free' : s.txnPtr = none := by simpa using free
    rcases eq : s.obtained (.txnBegin false) with ⟨_ | txn, s'⟩
    · exact orderly.begin_failed eq
    · have after := inside txn s' free' eq
      have dropped := after.drop
      unfold abort at dropped
      simp only
      split
      · rename_i txn' held
        rw [held] at dropped
        exact dropped
      · exact after

theorem orderly_write {callback : Isar → Ended} {s : Isar} (orderly : s.Orderly)
    (inside : ∀ txn s', s.txnPtr = none → s.obtained (.txnBegin true) = (some txn, s') →
      let ended := callback { s' with txnPtr := some txn, txnWrite := true }
      ended.2.Orderly ∧ (ended.1 = true → ended.2.txnPtr.isSome → ended.2.fails = false)) :
    (s.write callback).2.Orderly := by
  unfold write
  split
  · exact orderly
  · rename_i free
    have free' : s.txnPtr = none := by simpa using free
    rcases eq : s.obtained (.txnBegin true) with ⟨_ | txn, s'⟩
    · exact orderly.begin_failed eq
    · obtain ⟨after, commits⟩ := inside txn s' free' eq
      simp only
      generalize callback { s' with txnPtr := some txn, txnWrite := true } = ended at after commits
      obtain ⟨completed, s''⟩ := ended
      cases completed with
      | false => exact after.drop
      | true =>
        cases held : s''.txnPtr with
        | none => simpa [commit, abort, held] using after.release
        | some txn' =>
          have works : s''.fails = false := commits rfl (by simp [held])
          have committed : (s''.call (.txnCommit txn')).Sound := by
            apply sound_call after.sound
            intro p mem
            obtain rfl := List.mem_singleton.mp mem
            exact after.held p held
          refine ⟨?_, fun txn held => by cases held⟩
          simpa [commit, held, Isar.checked, works] using committed

/-- An operation on the transaction, or on one of its own. -/
theorem orderly_getTxn {callback : Pointer → Isar → Ended} {s : Isar} (orderly : s.Orderly)
    (borrows : ∀ txn s', s'.Orderly → s'.Live txn → (callback txn s').2.Orderly) :
    (s.getTxn callback).2.Orderly := by
  unfold getTxn
  split
  · rename_i txn held
    exact borrows txn s orderly (orderly.held txn held)
  · apply orderly_read orderly
    intro txn s' _ eq
    have begun := orderly.begin eq
    exact borrows txn _ begun (begun.held txn rfl)

/-- An operation that gives a transaction back or has lost it. -/
theorem orderly_getWriteTxn {consume : Bool} {callback : Pointer → Isar → Option Pointer × Isar}
    {s : Isar} (orderly : s.Orderly)
    (returns : ∀ txn, s.txnPtr = some txn → s.txnWrite = true →
      let s' := if consume then { s with txnPtr := none } else s
      s'.Orderly → s'.Live txn →
      (callback txn s').2.Orderly ∧
        ∀ p, (callback txn s').1 = some p → (callback txn s').2.Live p) :
    (s.getWriteTxn consume callback).2.Orderly := by
  unfold getWriteTxn
  split
  · rename_i txn held
    split
    · rename_i write
      have inside : (if consume then { s with txnPtr := none } else s).Orderly ∧
          (if consume then { s with txnPtr := none } else s).Live txn := by
        cases consume
        · exact ⟨orderly, orderly.held txn held⟩
        · exact ⟨orderly.release, orderly.held txn held⟩
      obtain ⟨after, new⟩ := returns txn held write inside.1 inside.2
      generalize callback txn (if consume then { s with txnPtr := none } else s) = ended at after new
      rcases ended with ⟨_ | returned, s'⟩
      · exact after
      · exact after.hold (new returned rfl) s'.txnWrite
    · exact orderly
  · exact orderly

/-! ## Operations -/

/-- A call that passes the transaction and frees nothing. -/
theorem Orderly.borrow {s : Isar} {c : FfiCall} {txn : Pointer} (orderly : s.Orderly)
    (live : s.Live txn) (passes : c.passed = [txn]) (keeps : c.consumed = []) :
    (s.checked c).2.Orderly ∧ (s.checked c).2.Live txn := by
  constructor
  · apply orderly.checked
    · intro p mem
      rw [passes] at mem
      obtain rfl := List.mem_singleton.mp mem
      exact live
    · simp [keeps]
  · exact live.call (by simp [keeps])

theorem orderly_reading {c : Pointer → FfiCall} (passes : ∀ txn, (c txn).passed = [txn])
    (keeps : ∀ txn, (c txn).consumed = []) (throws : Bool) {txn : Pointer} {s : Isar}
    (orderly : s.Orderly) (live : s.Live txn) : (s.reading c throws txn).2.Orderly := by
  have borrowed := (orderly.borrow live (passes txn) (keeps txn)).1
  unfold reading
  rcases eq : s.checked (c txn) with ⟨_ | _, s'⟩
  · rw [eq] at borrowed
    exact borrowed
  · rw [eq] at borrowed
    exact borrowed

theorem orderly_writes {insert : Pointer} (fields : Nat) {s : Isar} (orderly : s.Orderly)
    (live : s.Live insert) :
    let written := (List.replicate fields (FfiCall.write insert)).foldl call s
    written.Orderly ∧ written.Live insert ∧ written.txnPtr = s.txnPtr := by
  induction fields generalizing s with
  | zero => exact ⟨orderly, live, rfl⟩
  | succ fields ih =>
    obtain ⟨orderly', live'⟩ := orderly.borrow (c := .write insert) live rfl rfl
    rw [List.replicate_succ, List.foldl_cons]
    exact ih ⟨orderly'.sound, orderly'.held⟩ live'

theorem orderly_saveAll {insert : Pointer} (objects : List (Nat × Bool)) {s : Isar}
    (orderly : s.Orderly) (live : s.Live insert) :
    let ended := saveAll insert objects s
    ended.2.Orderly ∧ ended.2.Live insert ∧ ended.2.txnPtr = s.txnPtr := by
  induction objects generalizing s with
  | nil => exact ⟨orderly, live, rfl⟩
  | cons object objects ih =>
    obtain ⟨fields, throws⟩ := object
    obtain ⟨written, live', same⟩ := orderly_writes fields orderly live
    unfold saveAll
    simp only
    split
    · exact ⟨written, live', same⟩
    · have saved := written.borrow (c := .insertSave insert) live' rfl rfl
      split
      · rename_i s' eq
        rw [eq] at saved
        obtain ⟨rest, live'', same'⟩ := ih saved.1 saved.2
        refine ⟨rest, live'', ?_⟩
        rw [same', ← same, ← congrArg (fun ended => ended.2.txnPtr) eq]
        rfl
      · rename_i s' eq
        rw [eq] at saved
        refine ⟨saved.1, saved.2, ?_⟩
        rw [← same, ← congrArg (fun ended => ended.2.txnPtr) eq]
        rfl

/-- `putAll` hands the transaction to the insert and takes it back from there. -/
theorem orderly_putAll (objects : List (Nat × Bool)) {s : Isar} (orderly : s.Orderly) :
    (s.putAll objects).2.Orderly := by
  unfold putAll
  split
  · exact orderly
  · apply orderly_getWriteTxn orderly
    intro txn held _ s₁ orderly₁ live
    obtain ⟨orderly₂, free, insertLive⟩ := obtained_spec (c := .insert txn) orderly₁
      (by simpa [FfiCall.passed] using live) (by simp [s₁])
    rcases eq : s₁.obtained (.insert txn) with ⟨_ | insert, s₂⟩
    · rw [eq] at orderly₂
      exact ⟨orderly₂, by simp⟩
    · rw [eq] at orderly₂ free insertLive
      obtain ⟨orderly₃, live₃, free₃⟩ := orderly_saveAll objects orderly₂ (insertLive insert rfl)
      have free₃' : (saveAll insert objects s₂).2.txnPtr = none := by
        rw [free₃]
        exact free
      simp only
      rcases saved : saveAll insert objects s₂ with ⟨_ | _, s₃⟩
      · rw [saved] at orderly₃ live₃ free₃'
        replace free₃' : s₃.txnPtr = none := free₃'
        have aborted := orderly₃.call (c := .insertAbort insert)
          (by simpa [FfiCall.passed] using live₃) (by simp [free₃'])
        exact ⟨aborted, by simp⟩
      · rw [saved] at orderly₃ live₃ free₃'
        replace free₃' : s₃.txnPtr = none := free₃'
        obtain ⟨orderly₄, -, new⟩ := obtained_spec (c := .insertFinish insert) orderly₃
          (by simpa [FfiCall.passed] using live₃) (by simp [free₃'])
        exact ⟨orderly₄, new⟩

theorem orderly_importJsonString {s : Isar} (orderly : s.Orderly) :
    s.importJsonString.2.Orderly := by
  apply orderly_getWriteTxn orderly
  intro txn held _ s₁ orderly₁ live
  obtain ⟨orderly₂, -, new⟩ := obtained_spec (c := .importJson txn) orderly₁
    (by simpa [FfiCall.passed] using live) (by simp [s₁])
  exact ⟨orderly₂, new⟩

theorem orderly_deleteIds {txn : Pointer} (ids : List Int64) {s : Isar} (orderly : s.Orderly)
    (live : s.Live txn) :
    (deleteIds txn ids s).2.Orderly ∧
      ∀ p, (deleteIds txn ids s).1 = some p → (deleteIds txn ids s).2.Live p := by
  induction ids generalizing s with
  | nil =>
    refine ⟨orderly, fun p some => ?_⟩
    cases some
    exact live
  | cons id ids ih =>
    have deleted := orderly.borrow (c := .delete txn) live rfl rfl
    unfold deleteIds
    split
    · rename_i s' eq
      rw [eq] at deleted
      exact ih deleted.1 deleted.2
    · rename_i s' eq
      rw [eq] at deleted
      exact ⟨deleted.1, by simp⟩

/-- The new update, with its values. -/
theorem orderly_addValues {update : Pointer} (changes : List Bool) {s : Isar}
    (orderly : s.Orderly) (live : s.Live update) :
    let ended := addValues update changes s
    ended.2.Orderly ∧ (∀ p, s.Live p → ended.2.Live p) ∧ ended.2.txnPtr = s.txnPtr ∧
      ended.2.txnWrite = s.txnWrite ∧ ended.2.fails = s.fails ∧
      (ended.1 = true ↔ true ∉ changes) := by
  induction changes generalizing s with
  | nil => exact ⟨orderly, fun p live => live, rfl, rfl, rfl, by simp [addValues]⟩
  | cons throws changes ih =>
    unfold addValues
    cases throws with
    | true => exact ⟨orderly, fun p live => live, rfl, rfl, rfl, by simp⟩
    | false =>
      have added : (s.call (.updateAddValue update)).Orderly :=
        orderly.call (by simpa [FfiCall.passed] using live) (by simp [FfiCall.consumed])
      have kept : ∀ p, s.Live p → (s.call (.updateAddValue update)).Live p :=
        fun p live => live.call (by simp [FfiCall.consumed])
      obtain ⟨rest, lives, held, write, fails, completed⟩ := ih added (kept update live)
      exact ⟨rest, fun p live => lives p (kept p live), held, write, fails, by simpa using completed⟩

/-- A call that passes the transaction and frees an update. -/
theorem Orderly.spend {s : Isar} {c : FfiCall} {txn update : Pointer} (orderly : s.Orderly)
    (held : s.txnPtr = some txn) (live : s.Live update) (other : txn ≠ update)
    (passes : c.passed = [txn, update]) (takes : c.consumed = [update]) :
    (s.checked c).2.Orderly := by
  apply orderly.checked
  · intro p mem
    simp only [passes, List.mem_cons, List.not_mem_nil, or_false] at mem
    rcases mem with rfl | rfl
    · exact orderly.held p held
    · exact live
  · intro txn' held' mem
    rw [held] at held'
    cases held'
    rw [takes] at mem
    exact other (List.mem_singleton.mp mem)

/-- One update may be applied to one id, as long as the call before the next id fails. -/
theorem orderly_updateIds {txn update : Pointer} {ids : List Int64} {s : Isar}
    (orderly : s.Orderly) (held : s.txnPtr = some txn) (live : s.Live update)
    (other : txn ≠ update) (careful : 2 ≤ ids.length → s.fails = true) :
    (updateIds txn update ids s).2.Orderly ∧
      ∀ p, (updateIds txn update ids s).1 = some p → (updateIds txn update ids s).2.Live p := by
  cases ids with
  | nil =>
    refine ⟨orderly, fun p some => ?_⟩
    cases some
    exact orderly.held txn held
  | cons id ids =>
    have updated := orderly.spend (c := .update txn update) held live other rfl rfl
    unfold updateIds
    cases fails : s.fails with
    | true =>
      have eq : s.checked (.update txn update) = (false, (s.checked (.update txn update)).2) := by
        simp [Isar.checked, fails]
      rw [eq]
      exact ⟨updated, by simp⟩
    | false =>
      have single : ids = [] := by
        by_contra more
        have long : 2 ≤ (id :: ids).length := by
          have := List.length_pos_of_ne_nil more
          simp only [List.length_cons]
          omega
        simp [careful long] at fails
      have eq : s.checked (.update txn update) = (true, (s.checked (.update txn update)).2) := by
        simp [Isar.checked, fails]
      rw [eq, single]
      refine ⟨updated, fun p some => ?_⟩
      cases some
      exact updated.held txn held

/-- The update reaches its second id. -/
def updatesTwice (s : Isar) (ids : List Int64) (changes : List Bool) : Bool :=
  2 ≤ ids.length && true ∉ changes && s.txnPtr.isSome && s.txnWrite && !s.fails

theorem orderly_updateProperties (ids : List Int64) (changes : List Bool) {s : Isar}
    (orderly : s.Orderly) (once : s.updatesTwice ids changes = false) :
    (s.updateProperties ids changes).2.Orderly := by
  unfold updateProperties
  split
  · exact orderly
  · have called : (s.call .updateNew).Orderly :=
      orderly.call (by simp [FfiCall.passed]) (by simp [FfiCall.consumed])
    obtain ⟨allocated, new, kept⟩ := allocate_spec called
    simp only
    obtain ⟨added, lives, held, write, fails, completed⟩ := orderly_addValues changes allocated new
    rcases eq : addValues (s.call .updateNew).allocate.1 changes (s.call .updateNew).allocate.2 with
      ⟨_ | _, s'⟩
    · rw [eq] at added
      exact added
    · rw [eq] at added lives held write fails completed
      apply orderly_getWriteTxn added
      intro txn held' write' s₁ orderly₁ live₁
      have before : (s.call .updateNew).Live txn := by
        apply called.held
        exact held.symm.trans held'
      apply orderly_updateIds orderly₁ held' (lives _ new) (kept txn before).2
      intro long
      by_contra works
      have same : s₁.fails = s.fails := fails
      have fails' : s.fails = false := by
        rw [← same]
        simpa using works
      have isSome : s.txnPtr = some txn := held.symm.trans held'
      have writes : s.txnWrite = true := write.symm.trans write'
      have reached : true ∉ changes := completed.mp rfl
      simp [updatesTwice, long, isSome, writes, fails', reached] at once

theorem orderly_queryUpdateProperties (limitIsZero closed : Bool) (changes : List Bool) {s : Isar}
    (orderly : s.Orderly) : (s.queryUpdateProperties limitIsZero closed changes).2.Orderly := by
  unfold queryUpdateProperties
  split
  · exact orderly
  · apply orderly_getWriteTxn orderly
    intro txn held _ s₁ orderly₁ live
    have called : (s₁.call .updateNew).Orderly :=
      orderly₁.call (by simp [FfiCall.passed]) (by simp [FfiCall.consumed])
    obtain ⟨allocated, new, kept⟩ := allocate_spec called
    simp only
    obtain ⟨added, lives, held', -, -, -⟩ := orderly_addValues changes allocated new
    rcases eq : addValues (s₁.call .updateNew).allocate.1 changes
      (s₁.call .updateNew).allocate.2 with ⟨_ | _, s₂⟩
    · rw [eq] at added
      exact ⟨added, by simp⟩
    · rw [eq] at added lives held'
      simp only
      split
      · exact ⟨added, by simp⟩
      · have heldTxn : s₂.txnPtr = some txn := held'.trans held
        have before : (s₁.call .updateNew).Live txn := called.held txn held
        have updated := added.spend (c := .queryUpdate txn (s₁.call .updateNew).allocate.1)
          heldTxn (lives _ new) (kept txn before).2 rfl rfl
        split
        · rename_i s₃ eq'
          have held₃ : s₃.txnPtr = some txn := by
            rw [← congrArg (fun ended => ended.2.txnPtr) eq']
            exact heldTxn
          rw [eq'] at updated
          refine ⟨updated, fun p some => ?_⟩
          cases some
          exact updated.held txn held₃
        · rename_i s₃ eq'
          rw [eq'] at updated
          exact ⟨updated, by simp⟩

theorem orderly_queryDeleteAll (limitIsZero closed : Bool) {s : Isar} (orderly : s.Orderly) :
    (s.queryDeleteAll limitIsZero closed).2.Orderly := by
  unfold queryDeleteAll
  split
  · exact orderly
  · apply orderly_getWriteTxn orderly
    intro txn held _ s₁ orderly₁ live
    have deleted := orderly₁.borrow (c := .queryDelete txn) live rfl rfl
    split
    · exact ⟨orderly₁, by simp⟩
    · split
      · rename_i s₂ eq
        rw [eq] at deleted
        refine ⟨deleted.1, fun p some => ?_⟩
        cases some
        exact deleted.2
      · rename_i s₂ eq
        rw [eq] at deleted
        exact ⟨deleted.1, by simp⟩

/-- Every operation keeps the handles in order, unless an update reaches a second id. -/
theorem orderly_perform (operation : Operation) {s : Isar} (orderly : s.Orderly)
    (once : ∀ ids changes, operation = .updateProperties ids changes →
      s.updatesTwice ids changes = false) : (operation.perform s).2.Orderly := by
  have borrows : ∀ {c : Pointer → FfiCall} {txn : Pointer} {s : Isar},
      (∀ txn, (c txn).passed = [txn]) → (∀ txn, (c txn).consumed = []) → s.Orderly → s.Live txn →
      (s.call (c txn)).Orderly ∧ (s.call (c txn)).Live txn := by
    intro c txn s passes keeps orderly live
    obtain ⟨orderly', live'⟩ := orderly.borrow live (passes txn) (keeps txn)
    exact ⟨⟨orderly'.sound, orderly'.held⟩, live'⟩
  cases operation with
  | getAll throws =>
    apply orderly_getTxn orderly
    exact fun txn s' => orderly_reading (fun _ => rfl) (fun _ => rfl) throws
  | count =>
    apply orderly_getTxn orderly
    exact fun txn s' orderly live => (borrows (fun _ => rfl) (fun _ => rfl) orderly live).1
  | getSize =>
    apply orderly_getTxn orderly
    exact fun txn s' orderly live => (borrows (fun _ => rfl) (fun _ => rfl) orderly live).1
  | verify =>
    apply orderly_getTxn orderly
    exact fun txn s' => orderly_reading (fun _ => rfl) (fun _ => rfl) false
  | putAll objects => exact orderly_putAll objects orderly
  | updateProperties ids changes =>
    exact orderly_updateProperties ids changes orderly (once ids changes rfl)
  | delete id =>
    apply orderly_getWriteTxn orderly
    intro txn held _ s₁ orderly₁ live
    exact orderly_deleteIds [id] orderly₁ live
  | deleteAll ids =>
    show (s.deleteAll ids).2.Orderly
    unfold deleteAll
    split
    · exact orderly
    · apply orderly_getWriteTxn orderly
      intro txn held _ s₁ orderly₁ live
      exact orderly_deleteIds ids orderly₁ live
  | importJsonString => exact orderly_importJsonString orderly
  | clear =>
    apply orderly_getWriteTxn orderly
    intro txn held _ s₁ orderly₁ live
    obtain ⟨cleared, live'⟩ := borrows (c := .clear) (fun _ => rfl) (fun _ => rfl) orderly₁ live
    refine ⟨cleared, fun p some => ?_⟩
    cases some
    exact live'
  | findAll limitIsZero closed throws =>
    show (s.findAll limitIsZero closed throws).2.Orderly
    unfold findAll
    split
    · exact orderly
    · apply orderly_getTxn orderly
      intro txn s' orderly' live
      split
      · exact orderly'
      · exact orderly_reading (fun _ => rfl) (fun _ => rfl) throws orderly' live
  | queryUpdateProperties limitIsZero closed changes =>
    exact orderly_queryUpdateProperties limitIsZero closed changes orderly
  | queryDeleteAll limitIsZero closed => exact orderly_queryDeleteAll limitIsZero closed orderly
  | aggregate closed throws =>
    apply orderly_getTxn orderly
    intro txn s' orderly' live
    split
    · exact orderly'
    · exact orderly_reading (fun _ => rfl) (fun _ => rfl) throws orderly' live

/-! ## Calls are never taken back -/

/-- The calls of one state come before those of the other. -/
def Before (s s' : Isar) : Prop := s.calls <+: s'.calls

theorem Before.trans {s s' s'' : Isar} (before : Before s s') (before' : Before s' s'') :
    Before s s'' :=
  List.IsPrefix.trans before before'

theorem before_call (s : Isar) (c : FfiCall) : Before s (s.call c) := List.prefix_append _ _

theorem before_checked (s : Isar) (c : FfiCall) : Before s (s.checked c).2 := before_call s c

theorem before_obtained (s : Isar) (c : FfiCall) : Before s (s.obtained c).2 := by
  have checked := before_checked s c
  unfold obtained
  rcases eq : s.checked c with ⟨_ | _, s'⟩
  · rw [eq] at checked
    exact checked
  · rw [eq] at checked
    exact checked

theorem before_abort (s : Isar) : Before s s.abort := by
  unfold abort
  split
  · exact before_call s _
  · exact List.prefix_rfl

theorem before_read_of_callback {callback : Isar → Ended} {s s' : Isar} {txn : Pointer}
    (free : s.txnPtr = none) (begun : s.obtained (.txnBegin false) = (some txn, s')) :
    Before (callback { s' with txnPtr := some txn, txnWrite := false }).2 (s.read callback).2 := by
  unfold read
  rw [if_neg (by simp [free]), begun]
  simp only
  split
  · exact before_call _ _
  · exact List.prefix_rfl

theorem before_commit (s : Isar) : Before s s.commit.2 := by
  unfold commit
  split
  · exact before_checked s _
  · exact List.prefix_rfl

theorem before_write_of_callback {callback : Isar → Ended} {s s' : Isar} {txn : Pointer}
    (free : s.txnPtr = none) (begun : s.obtained (.txnBegin true) = (some txn, s')) :
    Before (callback { s' with txnPtr := some txn, txnWrite := true }).2 (s.write callback).2 := by
  unfold write
  rw [if_neg (by simp [free]), begun]
  simp only
  generalize callback { s' with txnPtr := some txn, txnWrite := true } = ended
  obtain ⟨completed, s''⟩ := ended
  cases completed with
  | false => exact before_abort s''
  | true =>
    have committed := before_commit s''
    simp only [if_true]
    rcases eq : s''.commit with ⟨_ | _, t⟩
    · rw [eq] at committed
      exact committed.trans (before_abort t)
    · rw [eq] at committed
      exact committed

theorem before_read {callback : Isar → Ended} (goes : ∀ s, Before s (callback s).2) (s : Isar) :
    Before s (s.read callback).2 := by
  have begins := before_obtained s (.txnBegin false)
  by_cases free : s.txnPtr = none
  · rcases eq : s.obtained (.txnBegin false) with ⟨_ | txn, s'⟩
    · rw [eq] at begins
      simpa [read, free, eq] using begins
    · rw [eq] at begins
      have begun : Before s { s' with txnPtr := some txn, txnWrite := false } := begins
      exact (begun.trans (goes _)).trans (before_read_of_callback free eq)
  · have nested : s.txnPtr.isSome = true := by simpa [Option.isSome_iff_ne_none] using free
    rw [read, if_pos nested]
    exact List.prefix_rfl

theorem before_write {callback : Isar → Ended} (goes : ∀ s, Before s (callback s).2) (s : Isar) :
    Before s (s.write callback).2 := by
  have begins := before_obtained s (.txnBegin true)
  by_cases free : s.txnPtr = none
  · rcases eq : s.obtained (.txnBegin true) with ⟨_ | txn, s'⟩
    · rw [eq] at begins
      simpa [write, free, eq] using begins
    · rw [eq] at begins
      have begun : Before s { s' with txnPtr := some txn, txnWrite := true } := begins
      exact (begun.trans (goes _)).trans (before_write_of_callback free eq)
  · have nested : s.txnPtr.isSome = true := by simpa [Option.isSome_iff_ne_none] using free
    rw [write, if_pos nested]
    exact List.prefix_rfl

theorem before_getTxn {callback : Pointer → Isar → Ended}
    (goes : ∀ txn s, Before s (callback txn s).2) (s : Isar) :
    Before s (s.getTxn callback).2 := by
  unfold getTxn
  split
  · exact goes _ s
  · apply before_read
    intro s'
    split
    · exact goes _ s'
    · exact List.prefix_rfl

theorem before_getWriteTxn {consume : Bool} {callback : Pointer → Isar → Option Pointer × Isar}
    (goes : ∀ txn s, Before s (callback txn s).2) (s : Isar) :
    Before s (s.getWriteTxn consume callback).2 := by
  unfold getWriteTxn
  split
  · rename_i txn held
    split
    · have start : Before s (callback txn (if consume then { s with txnPtr := none } else s)).2 := by
        cases consume
        · exact goes txn s
        · exact goes txn { s with txnPtr := none }
      generalize callback txn (if consume then { s with txnPtr := none } else s) = ended at start
      rcases ended with ⟨_ | returned, s'⟩
      · exact start
      · exact start
    · exact List.prefix_rfl
  · exact List.prefix_rfl

theorem before_saveAll (insert : Pointer) (objects : List (Nat × Bool)) (s : Isar) :
    Before s (saveAll insert objects s).2 := by
  induction objects generalizing s with
  | nil => exact List.prefix_rfl
  | cons object objects ih =>
    obtain ⟨fields, throws⟩ := object
    have writes : Before s ((List.replicate fields (FfiCall.write insert)).foldl call s) := by
      generalize List.replicate fields (FfiCall.write insert) = calls
      induction calls generalizing s with
      | nil => exact List.prefix_rfl
      | cons c calls ih' => exact (before_call s c).trans (ih' _)
    unfold saveAll
    simp only
    generalize (List.replicate fields (FfiCall.write insert)).foldl call s = t at writes
    split
    · exact writes
    · have saved := writes.trans (before_checked t (.insertSave insert))
      rcases eq : t.checked (.insertSave insert) with ⟨_ | _, t'⟩
      · rw [eq] at saved
        exact saved
      · rw [eq] at saved
        exact saved.trans (ih t')

theorem before_addValues (update : Pointer) (changes : List Bool) (s : Isar) :
    Before s (addValues update changes s).2 := by
  induction changes generalizing s with
  | nil => exact List.prefix_rfl
  | cons throws changes ih =>
    unfold addValues
    split
    · exact List.prefix_rfl
    · exact (before_call s _).trans (ih _)

theorem before_updateIds (txn update : Pointer) (ids : List Int64) (s : Isar) :
    Before s (updateIds txn update ids s).2 := by
  induction ids generalizing s with
  | nil => exact List.prefix_rfl
  | cons id ids ih =>
    have updated := before_checked s (.update txn update)
    unfold updateIds
    rcases eq : s.checked (.update txn update) with ⟨_ | _, t⟩
    · rw [eq] at updated
      exact updated
    · rw [eq] at updated
      exact updated.trans (ih t)

theorem before_deleteIds (txn : Pointer) (ids : List Int64) (s : Isar) :
    Before s (deleteIds txn ids s).2 := by
  induction ids generalizing s with
  | nil => exact List.prefix_rfl
  | cons id ids ih =>
    have deleted := before_checked s (.delete txn)
    unfold deleteIds
    rcases eq : s.checked (.delete txn) with ⟨_ | _, t⟩
    · rw [eq] at deleted
      exact deleted
    · rw [eq] at deleted
      exact deleted.trans (ih t)

theorem before_reading (c : Pointer → FfiCall) (throws : Bool) (txn : Pointer) (s : Isar) :
    Before s (s.reading c throws txn).2 := by
  have read := before_checked s (c txn)
  unfold reading
  rcases eq : s.checked (c txn) with ⟨_ | _, t⟩
  · rw [eq] at read
    exact read
  · rw [eq] at read
    exact read

theorem before_putAll (objects : List (Nat × Bool)) (s : Isar) :
    Before s (s.putAll objects).2 := by
  unfold putAll
  split
  · exact List.prefix_rfl
  · apply before_getWriteTxn
    intro txn s₁
    have inserted := before_obtained s₁ (.insert txn)
    rcases eq : s₁.obtained (.insert txn) with ⟨_ | insert, s₂⟩
    · rw [eq] at inserted
      exact inserted
    · rw [eq] at inserted
      have saved := inserted.trans (before_saveAll insert objects s₂)
      simp only
      rcases eq' : saveAll insert objects s₂ with ⟨_ | _, s₃⟩
      · rw [eq'] at saved
        exact saved.trans (before_call s₃ _)
      · rw [eq'] at saved
        exact saved.trans (before_obtained s₃ _)

theorem before_updateProperties (ids : List Int64) (changes : List Bool) (s : Isar) :
    Before s (s.updateProperties ids changes).2 := by
  unfold updateProperties
  split
  · exact List.prefix_rfl
  · have created : Before s (s.call .updateNew).allocate.2 := before_call s .updateNew
    have added := created.trans (before_addValues (s.call .updateNew).allocate.1 changes _)
    simp only
    rcases eq : addValues (s.call .updateNew).allocate.1 changes (s.call .updateNew).allocate.2 with
      ⟨_ | _, t⟩
    · rw [eq] at added
      exact added
    · rw [eq] at added
      exact added.trans (before_getWriteTxn (fun txn s => before_updateIds txn _ ids s) t)

theorem before_queryUpdateProperties (limitIsZero closed : Bool) (changes : List Bool) (s : Isar) :
    Before s (s.queryUpdateProperties limitIsZero closed changes).2 := by
  unfold queryUpdateProperties
  split
  · exact List.prefix_rfl
  · apply before_getWriteTxn
    intro txn s₁
    have created : Before s₁ (s₁.call .updateNew).allocate.2 := before_call s₁ .updateNew
    have added := created.trans (before_addValues (s₁.call .updateNew).allocate.1 changes _)
    simp only
    rcases eq : addValues (s₁.call .updateNew).allocate.1 changes
      (s₁.call .updateNew).allocate.2 with ⟨_ | _, t⟩
    · rw [eq] at added
      exact added
    · rw [eq] at added
      have updated := Before.trans added
        (before_checked t (.queryUpdate txn (s₁.call .updateNew).allocate.1))
      simp only
      split
      · exact added
      · split <;> rename_i t' eq'
        · rw [eq'] at updated
          exact updated
        · rw [eq'] at updated
          exact updated

theorem before_perform (operation : Operation) (s : Isar) : Before s (operation.perform s).2 := by
  cases operation with
  | getAll throws => exact before_getTxn (before_reading .cursor throws) s
  | count => exact before_getTxn (fun txn s => before_call s _) s
  | getSize => exact before_getTxn (fun txn s => before_call s _) s
  | verify => exact before_getTxn (before_reading .verify false) s
  | putAll objects => exact before_putAll objects s
  | updateProperties ids changes => exact before_updateProperties ids changes s
  | delete id => exact before_getWriteTxn (fun txn s => before_deleteIds txn [id] s) s
  | deleteAll ids =>
    show Before s (s.deleteAll ids).2
    unfold deleteAll
    split
    · exact List.prefix_rfl
    · exact before_getWriteTxn (fun txn s => before_deleteIds txn ids s) s
  | importJsonString => exact before_getWriteTxn (fun txn s => before_obtained s _) s
  | clear => exact before_getWriteTxn (fun txn s => before_call s _) s
  | findAll limitIsZero closed throws =>
    show Before s (s.findAll limitIsZero closed throws).2
    unfold findAll
    split
    · exact List.prefix_rfl
    · apply before_getTxn
      intro txn s'
      split
      · exact List.prefix_rfl
      · exact before_reading .queryCursor throws txn s'
  | queryUpdateProperties limitIsZero closed changes =>
    exact before_queryUpdateProperties limitIsZero closed changes s
  | queryDeleteAll limitIsZero closed =>
    show Before s (s.queryDeleteAll limitIsZero closed).2
    unfold queryDeleteAll
    split
    · exact List.prefix_rfl
    · apply before_getWriteTxn
      intro txn s'
      have deleted := before_checked s' (.queryDelete txn)
      split
      · exact List.prefix_rfl
      · split <;> rename_i t eq
        · rw [eq] at deleted
          exact deleted
        · rw [eq] at deleted
          exact deleted
  | aggregate closed throws =>
    apply before_getTxn
    intro txn s'
    split
    · exact List.prefix_rfl
    · exact before_reading .queryAggregate throws txn s'

end Isar

theorem Program.before_run (program : Program) (s : Isar) : s.Before (program.run s).2 := by
  induction program generalizing s with
  | completes => exact List.prefix_rfl
  | throws => exact List.prefix_rfl
  | operation called next ih => exact (Isar.before_perform called s).trans (ih _ _)
  | read callback next ih ih' => exact (Isar.before_read ih s).trans (ih' _ _)
  | write callback next ih ih' => exact (Isar.before_write ih s).trans (ih' _ _)

/-! ## The two ways to pass a freed handle -/

namespace Isar

abbrev Owned (s : Isar) : Prop := Ownership.Owned FfiCall.passed FfiCall.consumed s.calls

theorem Before.owned {s s' : Isar} (before : Before s s') (owned : s'.Owned) : s.Owned :=
  Ownership.Owned.of_prefix owned before

/-- A handle that a call frees is not passed by the next one. -/
theorem not_owned_of_repeated {s : Isar} {c d : FfiCall} {p : Pointer} (frees : p ∈ c.consumed)
    (again : p ∈ d.passed) : ¬ ((s.call c).call d).Owned := by
  intro owned
  have live := (owned_append.mp owned).2 p again
  exact (live_append.mp live).2 frees

/-- The update goes to the first id, whatever comes of it. -/
theorem before_updateIds_cons (txn update : Pointer) (id : Int64) (ids : List Int64) (s : Isar) :
    Before (s.checked (.update txn update)).2 (updateIds txn update (id :: ids) s).2 := by
  rw [updateIds]
  rcases s.checked (.update txn update) with ⟨_ | _, t⟩
  · exact List.prefix_rfl
  · exact before_updateIds txn update ids t

theorem not_owned_updateIds (txn update : Pointer) (id id' : Int64) (ids : List Int64) {s : Isar}
    (works : s.fails = false) : ¬ (updateIds txn update (id :: id' :: ids) s).2.Owned := by
  have first : s.checked (.update txn update) = (true, (s.checked (.update txn update)).2) := by
    simp [Isar.checked, works]
  rw [updateIds, first]
  intro owned
  have second := before_updateIds_cons txn update id' ids (s.checked (.update txn update)).2
  exact not_owned_of_repeated (c := .update txn update) (d := .update txn update) (p := update)
    (s := s) (by simp [FfiCall.consumed]) (by simp [FfiCall.passed]) (second.owned owned)

theorem not_owned_updateProperties {ids : List Int64} {changes : List Bool} {s : Isar}
    (orderly : s.Orderly) (twice : s.updatesTwice ids changes = true) :
    ¬ (s.updateProperties ids changes).2.Owned := by
  simp only [updatesTwice, Bool.and_eq_true, decide_eq_true_eq, Bool.not_eq_true'] at twice
  obtain ⟨⟨⟨⟨long, known⟩, inTxn⟩, write⟩, works⟩ := twice
  obtain ⟨txn, held⟩ := Option.isSome_iff_exists.mp inTxn
  match ids, long with
  | id :: id' :: ids, _ =>
    have called : (s.call .updateNew).Orderly :=
      orderly.call (by simp [FfiCall.passed]) (by simp [FfiCall.consumed])
    obtain ⟨allocated, new, -⟩ := allocate_spec called
    obtain ⟨-, -, held', write', works', completed⟩ := orderly_addValues changes allocated new
    have adds := completed.mpr known
    unfold updateProperties
    rw [if_neg (by simp)]
    simp only
    rcases eq : addValues (s.call .updateNew).allocate.1 changes (s.call .updateNew).allocate.2 with
      ⟨_ | _, t⟩
    · rw [eq] at adds
      cases adds
    · rw [eq] at held' write' works'
      replace held' : t.txnPtr = some txn := held'.trans held
      replace write' : t.txnWrite = true := write'.trans write
      replace works' : t.fails = false := works'.trans works
      have twice := not_owned_updateIds txn (s.call .updateNew).allocate.1 id id' ids works'
      simp only [getWriteTxn, held', write', if_true]
      rcases updated : updateIds txn (s.call .updateNew).allocate.1 (id :: id' :: ids) t with
        ⟨_ | _, t'⟩
      · rw [updated] at twice
        simpa [updated] using twice
      · rw [updated] at twice
        simpa [updated] using twice

/-- A failed commit has freed the transaction that `write` then aborts. -/
theorem not_owned_write {callback : Isar → Ended} {s s' : Isar} {txn : Pointer}
    (free : s.txnPtr = none) (begun : s.obtained (.txnBegin true) = (some txn, s'))
    (completed : (callback { s' with txnPtr := some txn, txnWrite := true }).1 = true)
    {held : Pointer}
    (holds : (callback { s' with txnPtr := some txn, txnWrite := true }).2.txnPtr = some held)
    (fails : (callback { s' with txnPtr := some txn, txnWrite := true }).2.fails = true) :
    ¬ (s.write callback).2.Owned := by
  unfold write
  rw [if_neg (by simp [free]), begun]
  simp only
  generalize callback { s' with txnPtr := some txn, txnWrite := true } = ended at *
  obtain ⟨ends, t⟩ := ended
  obtain rfl : ends = true := completed
  replace holds : t.txnPtr = some held := holds
  replace fails : t.fails = true := fails
  have repeated := not_owned_of_repeated (s := t) (c := .txnCommit held) (d := .txnAbort held)
    (p := held) (by simp [FfiCall.consumed]) (by simp [FfiCall.passed])
  intro owned
  apply repeated
  simpa [commit, abort, Isar.checked, Isar.call, Isar.Owned, holds, fails] using owned

end Isar

/-! ## Programs -/

/-- In the run of the program no update reaches a second id, and no commit returns an error. -/
def Program.Careful : Program → Isar → Prop
  | completes, _ | throws, _ => True
  | operation called next, s =>
    (∀ ids changes, called = .updateProperties ids changes → s.updatesTwice ids changes = false) ∧
      (next (called.perform s).1).Careful (called.perform s).2
  | read callback next, s =>
    (∀ txn s', s.txnPtr = none → s.obtained (.txnBegin false) = (some txn, s') →
      callback.Careful { s' with txnPtr := some txn, txnWrite := false }) ∧
      (next (s.read callback.run).1).Careful (s.read callback.run).2
  | write callback next, s =>
    (∀ txn s', s.txnPtr = none → s.obtained (.txnBegin true) = (some txn, s') →
      let begun : Isar := { s' with txnPtr := some txn, txnWrite := true }
      callback.Careful begun ∧
        ((callback.run begun).1 = true → (callback.run begun).2.txnPtr.isSome →
          (callback.run begun).2.fails = false)) ∧
      (next (s.write callback.run).1).Careful (s.write callback.run).2

theorem Program.orderly_run (program : Program) {s : Isar} (orderly : s.Orderly)
    (careful : program.Careful s) : (program.run s).2.Orderly := by
  induction program generalizing s with
  | completes => exact orderly
  | throws => exact orderly
  | operation called next ih =>
    obtain ⟨once, rest⟩ := careful
    exact ih _ (Isar.orderly_perform called orderly once) rest
  | read callback next ih ih' =>
    obtain ⟨inside, rest⟩ := careful
    apply ih' _ _ rest
    apply Isar.orderly_read orderly
    intro txn s' free begun
    exact ih (orderly.begin begun) (inside txn s' free begun)
  | write callback next ih ih' =>
    obtain ⟨inside, rest⟩ := careful
    apply ih' _ _ rest
    apply Isar.orderly_write orderly
    intro txn s' free begun
    obtain ⟨within, commits⟩ := inside txn s' free begun
    exact ⟨ih (orderly.begin begun) within, commits⟩

/-- A program whose calls are in order was careful. -/
theorem Program.careful_of_owned (program : Program) {s : Isar} (orderly : s.Orderly)
    (owned : (program.run s).2.Owned) : program.Careful s := by
  induction program generalizing s with
  | completes => trivial
  | throws => trivial
  | operation called next ih =>
    have owned' : (called.perform s).2.Owned := ((next _).before_run _).owned owned
    have once : ∀ ids changes, called = .updateProperties ids changes →
        s.updatesTwice ids changes = false := by
      intro ids changes same
      subst same
      by_contra twice
      exact Isar.not_owned_updateProperties orderly (by simpa using twice) owned'
    exact ⟨once, ih _ (Isar.orderly_perform called orderly once) owned⟩
  | read callback next ih ih' =>
    have owned' : (s.read callback.run).2.Owned := ((next _).before_run _).owned owned
    have inside : ∀ txn s', s.txnPtr = none → s.obtained (.txnBegin false) = (some txn, s') →
        callback.Careful { s' with txnPtr := some txn, txnWrite := false } := by
      intro txn s' free begun
      exact ih (orderly.begin begun) ((Isar.before_read_of_callback free begun).owned owned')
    have after : (s.read callback.run).2.Orderly := by
      apply Isar.orderly_read orderly
      intro txn s' free begun
      exact callback.orderly_run (orderly.begin begun) (inside txn s' free begun)
    exact ⟨inside, ih' _ after owned⟩
  | write callback next ih ih' =>
    have owned' : (s.write callback.run).2.Owned := ((next _).before_run _).owned owned
    have inside : ∀ txn s', s.txnPtr = none → s.obtained (.txnBegin true) = (some txn, s') →
        let begun : Isar := { s' with txnPtr := some txn, txnWrite := true }
        callback.Careful begun ∧
          ((callback.run begun).1 = true → (callback.run begun).2.txnPtr.isSome →
            (callback.run begun).2.fails = false) := by
      intro txn s' free begun
      constructor
      · exact ih (orderly.begin begun) ((Isar.before_write_of_callback free begun).owned owned')
      · intro completed holds
        obtain ⟨held, holds⟩ := Option.isSome_iff_exists.mp holds
        by_contra fails
        exact Isar.not_owned_write free begun completed holds (by simpa using fails) owned'
    have after : (s.write callback.run).2.Orderly := by
      apply Isar.orderly_write orderly
      intro txn s' free begun
      obtain ⟨within, commits⟩ := inside txn s' free begun
      exact ⟨callback.orderly_run (orderly.begin begun) within, commits⟩
    exact ⟨inside, ih' _ after owned⟩

theorem Isar.orderly_opened (failures : List Bool) : (Isar.opened failures).Orderly :=
  ⟨⟨owned_nil, fun c mem => by cases mem⟩, fun txn held => by cases held⟩

/-- No transaction, insert or update is passed after it was freed, and so none is freed twice, if
and only if no update is applied to a second id and no commit returns an error. -/
theorem handles_owned_iff (program : Program) (failures : List Bool) :
    Ownership.Owned FfiCall.passed FfiCall.consumed (program.run (Isar.opened failures)).2.calls ↔
      program.Careful (Isar.opened failures) := by
  constructor
  · exact program.careful_of_owned (Isar.orderly_opened failures)
  · intro careful
    exact (program.orderly_run (Isar.orderly_opened failures) careful).sound.owned

/-- `updateProperties([1, 2], ..)` in a write transaction, without any error. -/
theorem second_id_passes_freed_update :
    let update := Program.operation (.updateProperties [1, 2] [false]) fun _ => .completes
    ¬ Ownership.Owned FfiCall.passed FfiCall.consumed
      ((Program.write update fun _ => .completes).run (Isar.opened [])).2.calls := by
  unfold Ownership.Owned
  decide

/-- The begin succeeds and the commit returns an error. -/
theorem failed_commit_is_aborted :
    ¬ Ownership.Owned FfiCall.passed FfiCall.consumed
      ((Program.write .completes fun _ => .completes).run (Isar.opened [false, true])).2.calls := by
  unfold Ownership.Owned
  decide

end IsarPlus.Dart
