import IsarPlus.Core.Marking
import IsarPlus.Lib.Run

/-!
# Which watchers are notified

Watchers come and go while a transaction records its changes. In runs whose changes meet no list
with a gap the watchers notified are those that were there when a change of theirs was recorded.
-/

namespace IsarPlus

variable {Q O : Type}

namespace Watching

/-- A list of a collection; a collection that does not exist has no watchers. -/
def list (s : Watching Q) (c : Nat) (l : WatchList) : List Watcher :=
  match s.collections[c]? with
  | some cw => cw.list l
  | none => []

/-- Watchers differ, and new ones are told from those there by their ids. -/
structure Distinct (s : Watching Q) : Prop where
  nodup : ∀ c l, (s.list c l).Nodup
  apart : ∀ {c l c' l' w}, w ∈ s.list c l → w ∈ s.list c' l' → c = c' ∧ l = l'
  fresh : ∀ {c l w}, w ∈ s.list c l → w.id < s.watcherId
  keyed : s.changeSet.Keyed

theorem list_register (s : Watching Q) {collection : Nat}
    {add : UInt64 → RawCollectionWatchers Q → RawCollectionWatchers Q} {place : Option WatchList}
    (appends : RawCollectionWatchers.Appends add place) (c : Nat) (l : WatchList) :
    (s.register collection add).list c l = s.list c l ∨
    c = collection ∧ some l = place ∧
      (s.register collection add).list c l = s.list c l ++ [⟨s.watcherId⟩] := by
  unfold list register
  rw [List.getElem?_modify]
  by_cases here : collection = c
  · cases found : s.collections[c]? with
    | none => exact Or.inl (by simp)
    | some cw =>
      by_cases there : some l = place
      · exact Or.inr ⟨here.symm, there, by simp [here, appends s.watcherId cw l, there]⟩
      · exact Or.inl (by simp [here, appends s.watcherId cw l, there])
  · exact Or.inl (by simp [here])

theorem Distinct.register {s : Watching Q} {collection : Nat}
    {add : UInt64 → RawCollectionWatchers Q → RawCollectionWatchers Q} {place : Option WatchList}
    (distinct : s.Distinct) (appends : RawCollectionWatchers.Appends add place)
    (fits : s.watcherId + 1 ≠ 0) : (s.register collection add).Distinct := by
  have next : s.watcherId < s.watcherId + 1 := by
    grind
  have cases' : ∀ {c l w}, w ∈ (s.register collection add).list c l →
      w ∈ s.list c l ∨ c = collection ∧ some l = place ∧ w = ⟨s.watcherId⟩ := by
    intro c l w mem
    rcases list_register s appends c l with same | ⟨here, there, appended⟩
    · exact Or.inl (same ▸ mem)
    · rw [appended, List.mem_append, List.mem_singleton] at mem
      exact mem.imp id fun eq => ⟨here, there, eq⟩
  have new : ∀ {c l}, ⟨s.watcherId⟩ ∉ s.list c l :=
    fun mem => absurd (distinct.fresh mem) (UInt64.lt_irrefl _)
  refine ⟨?_, ?_, ?_, distinct.keyed⟩
  · intro c l
    rcases list_register s appends c l with same | ⟨-, -, appended⟩
    · exact same ▸ distinct.nodup c l
    · rw [appended, List.nodup_append']
      exact ⟨distinct.nodup c l, List.nodup_singleton _, by simpa using new⟩
  · intro c l c' l' w mem mem'
    rcases cases' mem with old | ⟨rfl, there, rfl⟩
    · rcases cases' mem' with old' | ⟨-, -, rfl⟩
      · exact distinct.apart old old'
      · exact absurd old new
    · rcases cases' mem' with old' | ⟨rfl, there', -⟩
      · exact absurd old' new
      · exact ⟨rfl, Option.some.inj (there.trans there'.symm)⟩
  · intro c l w mem
    rcases cases' mem with old | ⟨-, -, rfl⟩
    · exact UInt64.lt_trans (distinct.fresh old) next
    · exact next

theorem Distinct.stop {s : Watching Q} (distinct : s.Distinct) (collection : Nat)
    (handle : WatchHandle) :
    Distinct { s with
      collections := s.collections.modify collection fun cw => cw.stop handle } := by
  have fewer : ∀ c l, (list { s with
      collections := s.collections.modify collection fun cw => cw.stop handle } c l).Sublist
        (s.list c l) := by
    intro c l
    unfold list
    simp only [List.getElem?_modify]
    cases found : s.collections[c]? with
    | none => simp
    | some cw =>
      by_cases here : collection = c
      · simpa [here] using cw.list_stop handle l
      · simp [here]
  refine ⟨?_, ?_, ?_, distinct.keyed⟩
  · intro c l
    exact (fewer c l).nodup (distinct.nodup c l)
  · intro c l c' l' w mem mem'
    exact distinct.apart ((fewer c l).subset mem) ((fewer c' l').subset mem')
  · intro c l w mem
    exact distinct.fresh ((fewer c l).subset mem)

end Watching

/-! ## What one call records -/

namespace Watching

variable {isMatch : Q → Int64 → O → Bool}

/-- The watchers that a call has to notify. -/
def Due (isMatch : Q → Int64 → O → Bool) (s : Watching Q) (call : WatchCall Q O) (w : Watcher) :
    Prop :=
  match call with
  | .registerChange c id object =>
    w ∈ s.list c .all ∨ w ∈ s.list c (.object id.toUInt64) ∨
      ∃ cw ∈ s.collections[c]?, ∃ q, (q, w) ∈ cw.queryWatchers ∧ isMatch q id object = true
  | .registerAll c => ∃ l, w ∈ s.list c l
  | _ => False

/-- A recorded change meets no list with a gap, and a new watcher an id that is not the last. -/
def Covers (s : Watching Q) : WatchCall Q O → Prop
  | .registerChange c id _ =>
    s.changeSet.Gapless (s.list c .all) ∧ s.changeSet.Gapless (s.list c (.object id.toUInt64))
  | .registerAll c =>
    s.changeSet.Gapless (s.list c .all) ∧ ∀ id, s.changeSet.Gapless (s.list c (.object id))
  | .watch _ | .watchObject _ _ | .watchQuery _ _ | .watchDetailed _ => s.watcherId + 1 ≠ 0
  | .stop _ _ | .recordDetailed _ _ => True

theorem list_of_getElem? {s : Watching Q} {c : Nat} {cw : RawCollectionWatchers Q}
    (found : s.collections[c]? = some cw) : s.list c = cw.list := by
  funext l
  simp [list, found]

theorem Distinct.apart_collection {s : Watching Q} (distinct : s.Distinct) {c : Nat}
    {cw : RawCollectionWatchers Q} (found : s.collections[c]? = some cw) :
    ChangeSet.Apart cw := by
  constructor
  · intro l
    exact list_of_getElem? found ▸ distinct.nodup c l
  · intro l l' w mem mem'
    rw [← list_of_getElem? found] at mem mem'
    exact (distinct.apart mem mem').2

theorem Distinct.record {s : Watching Q} (distinct : s.Distinct) (collection : Nat)
    {change : ChangeSet → RawCollectionWatchers Q → ChangeSet}
    (keeps : ∀ cs cw, ChangeSet.Keyed cs → (change cs cw).Keyed) :
    (s.record collection change).Distinct := by
  unfold Watching.record
  split
  · exact ⟨distinct.nodup, distinct.apart, distinct.fresh, keeps _ _ distinct.keyed⟩
  · exact distinct

theorem distinct_step {s : Watching Q} {call : WatchCall Q O} (distinct : s.Distinct)
    (covers : s.Covers call) : (s.step isMatch call).Distinct := by
  cases call with
  | watch c => exact distinct.register RawCollectionWatchers.appends_watch covers
  | watchObject c object =>
    exact distinct.register (RawCollectionWatchers.appends_watchObject object) covers
  | watchQuery c query =>
    exact distinct.register (RawCollectionWatchers.appends_watchQuery query) covers
  | watchDetailed c => exact distinct.register RawCollectionWatchers.appends_watchDetailed covers
  | stop c handle => exact distinct.stop c handle
  | registerChange c id object =>
    exact distinct.record c fun _ cw keyed =>
      ChangeSet.registerChange_induction ChangeSet.keyed_insert keyed cw id object
  | registerAll c =>
    exact distinct.record c fun _ cw keyed =>
      ChangeSet.registerAll_induction ChangeSet.keyed_insert keyed cw
  | recordDetailed c details =>
    show (s.record c fun cs cw => cs.recordDetailed cw details).Distinct
    apply distinct.record
    intro cs cw keyed
    rwa [ChangeSet.Keyed, ChangeSet.changes_recordDetailed]

/-- A call registers exactly the watchers that it has to notify. -/
theorem registered_step {s : Watching Q} {call : WatchCall Q O} (distinct : s.Distinct)
    (covers : s.Covers call) (w : Watcher) :
    (s.step isMatch call).changeSet.Registered w ↔
      s.changeSet.Registered w ∨ s.Due isMatch call w := by
  cases call with
  | registerChange c id object =>
    simp only [step, record, Due]
    cases found : s.collections[c]? with
    | none => simp [list, found]
    | some cw =>
      obtain ⟨all, one⟩ := covers
      rw [list_of_getElem? found] at all one ⊢
      have registered : (s.changeSet.registerChange isMatch cw id object).Registered w ↔ _ :=
        ChangeSet.registered_registerChange (distinct.apart_collection found) all one w
      simpa using registered
  | registerAll c =>
    simp only [step, record, Due]
    cases found : s.collections[c]? with
    | none => simp [list, found]
    | some cw =>
      obtain ⟨all, objects⟩ := covers
      rw [list_of_getElem? found] at *
      exact ChangeSet.registered_registerAll (distinct.apart_collection found) all objects w
  | recordDetailed c details =>
    simp only [step, record, Due, or_false]
    split
    · simp only [ChangeSet.Registered, ChangeSet.changes_recordDetailed]
    · rfl
  | _ => simp [step, Due, Watching.register]

/-! ## Runs -/

/-- The watchers that the calls of a run have to notify. -/
def Expected (isMatch : Q → Int64 → O → Bool) (s : Watching Q) : List (WatchCall Q O) → Watcher → Prop
  | [], _ => False
  | call :: calls, w => s.Due isMatch call w ∨ Expected isMatch (s.step isMatch call) calls w

/-- A call that misses no watcher. -/
def Covering (isMatch : Q → Int64 → O → Bool) (s : Watching Q) (call : WatchCall Q O)
    (s' : Watching Q) : Prop :=
  s.Covers call ∧ s' = s.step isMatch call

theorem distinct_start (n : Nat) : (start n : Watching Q).Distinct := by
  have empty : ∀ c l, (start n : Watching Q).list c l = [] := by
    intro c l
    unfold list start
    split
    · rename_i cw found
      obtain rfl := List.eq_of_mem_replicate (List.mem_of_getElem? found)
      cases l <;> rfl
    · rfl
  refine ⟨?_, ?_, ?_, by simp [start, ChangeSet.new, ChangeSet.Keyed]⟩
  · simp [empty]
  · intro c l c' l' w mem
    simp [empty] at mem
  · intro c l w mem
    simp [empty] at mem

theorem registered_run {s s' : Watching Q} {calls : List (WatchCall Q O)} (distinct : s.Distinct)
    (run : Run (Covering isMatch) s calls s') :
    s'.Distinct ∧ ∀ w, s'.changeSet.Registered w ↔
      s.changeSet.Registered w ∨ s.Expected isMatch calls w := by
  induction run with
  | nil => exact ⟨distinct, fun w => by simp [Expected]⟩
  | cons one _ ih =>
    obtain ⟨covers, rfl⟩ := one
    obtain ⟨distinct', registered⟩ := ih (distinct_step distinct covers)
    refine ⟨distinct', fun w => ?_⟩
    rw [registered, registered_step distinct covers, Expected, or_assoc]

/-- In every interleaving of registrations, stops and recorded changes that meet no list with a
gap, exactly the watchers that were there when a change of theirs was recorded are notified, each
of them once. -/
theorem watchers_notified_once (isMatch : Q → Int64 → O → Bool) (n : Nat)
    {calls : List (WatchCall Q O)} {s : Watching Q} (run : Run (Covering isMatch) (start n) calls s) :
    s.changeSet.notified.Nodup ∧
    ∀ w, w ∈ s.changeSet.notified ↔ (start n).Expected isMatch calls w := by
  obtain ⟨distinct, registered⟩ := registered_run (distinct_start n) run
  obtain ⟨nodup, notified⟩ := distinct.keyed.notified
  refine ⟨nodup, fun w => ?_⟩
  rw [notified, registered]
  simp [start, ChangeSet.new, ChangeSet.Registered]

/-- Two watchers of a collection and one of an object, which are there before both changes of a
transaction. -/
theorem three_watchers_notified_once :
    let isMatch : Unit → Int64 → Unit → Bool := fun _ _ _ => true
    let calls : List (WatchCall Unit Unit) :=
      [.watch 0, .watch 0, .watchObject 0 8, .registerChange 0 7 (), .registerChange 0 8 ()]
    let s := calls.foldl (step isMatch) (start 1)
    Run (Covering isMatch) (start 1) calls s ∧ s.changeSet.notified.Nodup ∧
      ∀ w, w ∈ s.changeSet.notified ↔ (start 1).Expected isMatch calls w := by
  intro isMatch calls s
  have run : Run (Covering isMatch) (start 1) calls s := by
    refine .cons ⟨?_, rfl⟩ (.cons ⟨?_, rfl⟩ (.cons ⟨?_, rfl⟩ ?_))
    · show (0 : UInt64) + 1 ≠ 0
      decide
    · show (1 : UInt64) + 1 ≠ 0
      decide
    · show (2 : UInt64) + 1 ≠ 0
      decide
    · exact .cons ⟨⟨by decide, by decide⟩, rfl⟩ (.cons ⟨⟨by decide, by decide⟩, rfl⟩ .nil)
  exact ⟨run, watchers_notified_once isMatch 1 run⟩

/-- A watcher that comes between two changes of a transaction is not notified of the second. -/
theorem late_watcher_missed :
    let isMatch : Unit → Int64 → Unit → Bool := fun _ _ _ => true
    let calls : List (WatchCall Unit Unit) :=
      [.watch 0, .registerChange 0 7 (), .watch 0, .registerChange 0 7 ()]
    let s := calls.foldl (step isMatch) (start 1)
    (start 1).Expected isMatch calls ⟨1⟩ ∧ ⟨1⟩ ∉ s.changeSet.notified := by
  intro isMatch calls s
  constructor
  · have due : (([.watch 0, .registerChange 0 7 (), .watch 0] : List (WatchCall Unit Unit)).foldl
        (step isMatch) (start 1)).Due isMatch (.registerChange 0 7 ()) ⟨1⟩ :=
      Or.inl (by decide)
    exact Or.inr (Or.inr (Or.inr (Or.inl due)))
  · decide

end Watching

end IsarPlus
